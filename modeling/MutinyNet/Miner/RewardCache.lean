import MutinyNet.Miner.Reward

namespace MutinyNet
namespace Miner

open Codec Python

/-!
# The reward address is a function of the height

`get_reward_addr_spk` keeps addresses and scripts from one call to the next.
Where the node's answers depend on nothing but what it is asked, none of this
shows: every call returns the address that belongs to its height, whatever the
heights of the calls before it were.
-/

/-- Where the reward goes: to a given address, or to the addresses of a
descriptor, which is ranged if it has a star. -/
inductive Payee where
  | address (address : String)
  | single (descriptor : String)
  | ranged (descriptor : String)
  deriving DecidableEq, Repr

/-- What the node knows: the address of a descriptor without a star, the one of
a ranged descriptor at an index, and the script of an address. -/
structure AddressBook where
  first : String -> String
  ranged : String -> Nat -> String
  script : String -> Bytes

namespace Payee

/-- The choice the arguments make; an address comes before a descriptor. -/
def ofState (self : RewardState) : Option Payee :=
  match self.address, self.descriptor with
  | some given, _ => some (.address given)
  | none, some descriptor =>
      if '*' ∈ descriptor.toList then some (.ranged descriptor) else some (.single descriptor)
  | none, none => none

/-- The address at a height. -/
def addressAt (book : AddressBook) (height : Nat) : Payee -> String
  | .address given => given
  | .single descriptor => book.first descriptor
  | .ranged descriptor => book.ranged descriptor height

end Payee

/-- The node answers from the book: `deriveaddresses` with a range returns the
addresses of the range in order. -/
structure AnswersFrom (node : RewardNode) (book : AddressBook) (payee : Payee) : Prop where
  script : forall height, Exists fun hexString =>
    node.getaddressinfo (payee.addressAt book height) = .ok hexString ∧
      fromHex hexString = .ok (book.script (payee.addressAt book height))
  single : forall descriptor, payee = .single descriptor -> Exists fun others =>
    node.deriveaddresses descriptor none = .ok (book.first descriptor :: others)
  ranged : forall descriptor (first last : Nat), payee = .ranged descriptor -> first ≤ last ->
    node.deriveaddresses descriptor (some (first, last)) =
      .ok ((List.range' first (last + 1 - first)).map (book.ranged descriptor))

/-! ## The dictionary of derived addresses -/

namespace RewardState

variable {addresses : List (Int × String)} {height : Int} {address : String}

theorem mem_insertAddress {entry : Int × String}
    (member : entry ∈ insertAddress addresses height address) :
    entry = (height, address) ∨ entry ∈ addresses := by
  induction addresses with
  | nil => exact Or.inl (List.mem_singleton.mp member)
  | cons first rest inductionHypothesis =>
      rw [insertAddress] at member
      split at member
      · rcases List.mem_cons.mp member with here | later
        · exact Or.inl here
        · exact Or.inr (List.mem_cons_of_mem _ later)
      · rcases List.mem_cons.mp member with here | later
        · rw [here]
          exact Or.inr List.mem_cons_self
        · rcases inductionHypothesis later with new | old
          · exact Or.inl new
          · exact Or.inr (List.mem_cons_of_mem _ old)

theorem mem_keys_insertAddress {key : Int} :
    key ∈ (insertAddress addresses height address).map Prod.fst <->
      key = height ∨ key ∈ addresses.map Prod.fst := by
  induction addresses with
  | nil => simp only [insertAddress, List.map_cons, List.map_nil, List.mem_singleton,
      List.not_mem_nil, or_false]
  | cons first rest inductionHypothesis =>
      rw [insertAddress]
      split
      · next same =>
          simp only [List.map_cons, List.mem_cons, same]
          tauto
      · simp only [List.map_cons, List.mem_cons, inductionHypothesis]
        tauto

/-- What is added is the address of some index from the first height on. -/
theorem mem_insertAddresses {addressOf : Nat -> String} {first count : Nat} {entry : Int × String}
    (member : entry ∈ insertAddresses addresses first
      ((List.range' first count).map addressOf)) :
    (Exists fun index : Nat => first ≤ index ∧ entry = ((index : Int), addressOf index)) ∨
      entry ∈ addresses := by
  induction count generalizing addresses first with
  | zero => exact Or.inr member
  | succ count inductionHypothesis =>
      rw [List.range'_succ, List.map_cons, insertAddresses] at member
      have later := @inductionHypothesis (insertAddress addresses first (addressOf first))
        (first + 1) (by rw [Nat.cast_add, Nat.cast_one]; exact member)
      rcases later with ⟨index, behind, same⟩ | before
      · exact Or.inl ⟨index, by omega, same⟩
      · rcases mem_insertAddress before with here | old
        · exact Or.inl ⟨first, le_refl _, here⟩
        · exact Or.inr old

theorem mem_keys_insertAddresses {key : Int} {added : List String}
    (member : key ∈ addresses.map Prod.fst) :
    key ∈ (insertAddresses addresses height added).map Prod.fst := by
  induction added generalizing addresses height with
  | nil => exact member
  | cons address added inductionHypothesis =>
      exact inductionHypothesis (mem_keys_insertAddress.mpr (Or.inr member))

end RewardState

/-! ## One call -/

/-- Entries of the dictionary are addresses of the descriptor at their index. -/
def OwnAddresses (addressOf : Nat -> String) (addresses : List (Int × String)) : Prop :=
  forall entry, entry ∈ addresses -> Exists fun index : Nat => entry = ((index : Int), addressOf index)

/-- A script that is kept is the one of the address. -/
def KeepsScript (book : AddressBook) (address : String) (rewardSpk : Option Bytes) : Prop :=
  rewardSpk = none ∨ rewardSpk = some (book.script address)

/-- What the attributes hold between two calls. -/
def Cached (book : AddressBook) (self : RewardState) : Payee -> Prop
  | .address given => self.address = some given ∧ KeepsScript book given self.rewardSpk
  | .single descriptor => '*' ∉ descriptor.toList ∧ self.descriptor = some descriptor ∧
      (self.address = none ∧ self.rewardSpk = none ∨
        self.address = some (book.first descriptor) ∧
          KeepsScript book (book.first descriptor) self.rewardSpk)
  | .ranged descriptor => '*' ∈ descriptor.toList ∧ self.descriptor = some descriptor ∧
      self.address = none ∧ self.rewardSpk = none ∧
      OwnAddresses (book.ranged descriptor) self.derivedAddresses

/-- Addresses of a ranged descriptor that are kept are at most nineteen heights
old. -/
def Recent (height : Nat) (self : RewardState) : Payee -> Prop
  | .ranged _ => forall entry, entry ∈ self.derivedAddresses -> (height : Int) - 20 < entry.1
  | _ => True

section Call

variable {node : RewardNode} {book : AddressBook} {self : RewardState} {descriptor : String}
  {height : Nat}

/-- Through the dictionary comes the address of the height. -/
theorem rangedAddress_eq (answers : AnswersFrom node book (.ranged descriptor))
    (own : OwnAddresses (book.ranged descriptor) self.derivedAddresses) :
    Exists fun derived =>
      self.rangedAddress node descriptor height =
          .ok (book.ranged descriptor height, { self with derivedAddresses := derived }) ∧
        OwnAddresses (book.ranged descriptor) derived ∧
        forall entry, entry ∈ derived -> (height : Int) - 20 < entry.1 := by
  -- Whatever the dictionary holds then, looking up the height finds its address.
  have found : forall derived : List (Int × String),
      OwnAddresses (book.ranged descriptor) derived -> (derived.lookup (height : Int)).isSome ->
        derived.lookup (height : Int) = some (book.ranged descriptor height) := by
    intro derived own there
    rcases Option.isSome_iff_exists.mp there with ⟨address, same⟩
    rcases List.lookup_eq_some_iff.mp same with ⟨front, back, split, -⟩
    have member : ((height : Int), address) ∈ derived := by
      rw [split]
      exact List.mem_append_right _ List.mem_cons_self
    rcases own _ member with ⟨index, entry⟩
    have keys : (height : Int) = index := congrArg Prod.fst entry
    have addresses : address = book.ranged descriptor index := congrArg Prod.snd entry
    rw [same, addresses, Int.ofNat_inj.mp keys]
  have recent : forall entry : Int × String,
      entry ∈ self.derivedAddresses.filter (fun entry => ¬ entry.1 + 20 ≤ (height : Int)) ->
        (height : Int) - 20 < entry.1 := by
    intro entry member
    have young := of_decide_eq_true (List.mem_filter.mp member).2
    omega
  have kept : OwnAddresses (book.ranged descriptor)
      (self.derivedAddresses.filter fun entry => ¬ entry.1 + 20 ≤ (height : Int)) :=
    fun entry member => own entry (List.mem_filter.mp member).1
  unfold RewardState.rangedAddress
  dsimp only
  generalize self.derivedAddresses.filter (fun entry => ¬ entry.1 + 20 ≤ (height : Int)) = before
    at recent kept
  cases known : before.lookup (height : Int) with
  | some address =>
      have same := found before kept (by rw [known]; rfl)
      rw [known] at same
      refine ⟨before, ?_, kept, recent⟩
      rw [Option.some.inj same]
      simp only [bind, Except.bind, pure, Except.pure, known, same]
  | none =>
      have asked := answers.ranged descriptor height (height + 20) rfl (by omega)
      have added : OwnAddresses (book.ranged descriptor)
          (RewardState.insertAddresses before height
            ((List.range' height (height + 20 + 1 - height)).map (book.ranged descriptor))) := by
        intro entry member
        rcases RewardState.mem_insertAddresses member with ⟨index, -, same⟩ | old
        · exact ⟨index, same⟩
        · exact kept entry old
      have there : (List.lookup (height : Int) (RewardState.insertAddresses before height
          ((List.range' height (height + 20 + 1 - height)).map
            (book.ranged descriptor)))).isSome := by
        have count : height + 20 + 1 - height = 20 + 1 := by omega
        rw [count, List.range'_succ, List.map_cons, RewardState.insertAddresses]
        have key := @RewardState.mem_keys_insertAddresses
          (RewardState.insertAddress before height (book.ranged descriptor height)) (height + 1)
          height ((List.range' (height + 1) 20).map (book.ranged descriptor))
          (RewardState.mem_keys_insertAddress.mpr (Or.inl rfl))
        rcases List.mem_map.mp key with ⟨entry, member, same⟩
        exact List.lookup_isSome_iff.mpr ⟨entry, member, beq_iff_eq.mpr same.symm⟩
      have same := found _ added there
      refine ⟨_, ?_, added, ?_⟩
      · push_cast at asked
        simp only [bind, Except.bind, pure, Except.pure, asked, same]
      · intro entry member
        rcases RewardState.mem_insertAddresses member with ⟨index, behind, shape⟩ | old
        · rw [shape]
          dsimp only
          omega
        · exact recent entry old

/-- Once the address is known, the call ends with it and its script; the script
is kept if the address is the same for every height. -/
theorem getRewardAddrSpk_of_address {payee : Payee} {self' : RewardState}
    (answers : AnswersFrom node book payee)
    (given : (self.address.isSome || self.descriptor.isSome) = true) (unkept : self.rewardSpk = none)
    (found : self.rewardAddress node height = .ok (payee.addressAt book height, self')) :
    self.getRewardAddrSpk node height =
      .ok ((some (payee.addressAt book height), book.script (payee.addressAt book height)),
        if self'.address.isSome then
          { self' with rewardSpk := some (book.script (payee.addressAt book height)) }
        else self') := by
  rcases answers.script height with ⟨hexString, informed, parsed⟩
  unfold RewardState.getRewardAddrSpk
  rw [unkept, given]
  simp only [assert, bind, Except.bind, pure, Except.pure, if_true, found, informed, parsed]

/-- A script that is kept ends the call at once. -/
theorem getRewardAddrSpk_of_script {address : String} {rewardSpk : Bytes}
    (given : self.address = some address) (kept : self.rewardSpk = some rewardSpk) :
    self.getRewardAddrSpk node height = .ok ((some address, rewardSpk), self) := by
  unfold RewardState.getRewardAddrSpk
  rw [kept, given]
  rfl

/-- A call whose address is in the arguments already. -/
theorem getRewardAddrSpk_of_given {payee : Payee} {address : String}
    (answers : AnswersFrom node book payee) (same : payee.addressAt book height = address)
    (given : self.address = some address) (keeps : KeepsScript book address self.rewardSpk) :
    self.getRewardAddrSpk node height = .ok ((some address, book.script address),
      { self with rewardSpk := some (book.script address) }) := by
  rcases keeps with unkept | kept
  · have found : self.rewardAddress node height = .ok (payee.addressAt book height, self) := by
      unfold RewardState.rewardAddress
      rw [given, same]
      rfl
    rw [getRewardAddrSpk_of_address answers (by rw [given]; rfl) unkept found, given, same]
    rfl
  · rw [getRewardAddrSpk_of_script given kept, ← kept]

/-- One call returns what belongs to its height, and keeps what it keeps. -/
theorem getRewardAddrSpk_cached {payee : Payee} (answers : AnswersFrom node book payee)
    (cached : Cached book self payee) :
    Exists fun self' =>
      self.getRewardAddrSpk node height =
          .ok ((some (payee.addressAt book height), book.script (payee.addressAt book height)),
            self') ∧
        Cached book self' payee ∧ Recent height self' payee := by
  cases payee with
  | address given =>
      rcases cached with ⟨here, keeps⟩
      exact ⟨_, getRewardAddrSpk_of_given answers rfl here keeps, ⟨here, Or.inr rfl⟩, trivial⟩
  | single descriptor =>
      rcases cached with ⟨unranged, there, ⟨unknown, unkept⟩ | ⟨known, keeps⟩⟩
      · rcases answers.single descriptor rfl with ⟨others, asked⟩
        have found : self.rewardAddress node height = .ok (book.first descriptor,
            { self with address := some (book.first descriptor) }) := by
          unfold RewardState.rewardAddress
          rw [unknown, there]
          simp only [if_neg unranged, bind, Except.bind, pure, Except.pure, asked]
        have given : (self.address.isSome || self.descriptor.isSome) = true := by
          rw [there, Option.isSome_some, Bool.or_true]
        exact ⟨_, getRewardAddrSpk_of_address answers given unkept found,
          ⟨unranged, there, Or.inr ⟨rfl, Or.inr rfl⟩⟩, trivial⟩
      · exact ⟨_, getRewardAddrSpk_of_given answers rfl known keeps,
          ⟨unranged, there, Or.inr ⟨known, Or.inr rfl⟩⟩, trivial⟩
  | ranged descriptor =>
      rcases cached with ⟨ranged, there, unknown, unkept, own⟩
      rcases @rangedAddress_eq node book self descriptor height answers own with
        ⟨derived, looked, own', recent⟩
      have through : self.rewardAddress node height =
          self.rangedAddress node descriptor height := by
        unfold RewardState.rewardAddress
        rw [unknown, there]
        exact if_pos ranged
      have given : (self.address.isSome || self.descriptor.isSome) = true := by
        rw [there, Option.isSome_some, Bool.or_true]
      have call := getRewardAddrSpk_of_address answers given unkept (through.trans looked)
      rw [if_neg (by rw [unknown]; exact Bool.false_ne_true)] at call
      exact ⟨_, call, ⟨ranged, there, unknown, unkept, own'⟩, recent⟩

end Call

/-! ## Every sequence of calls -/

/-- The calls for a sequence of heights. -/
def rewardCalls (node : RewardNode) :
    RewardState -> List Nat -> Except PyError (List (Option String × Bytes) × RewardState)
  | self, [] => .ok ([], self)
  | self, height :: heights => do
      let (reward, self) ← self.getRewardAddrSpk node height
      let (rewards, self) ← rewardCalls node self heights
      pure (reward :: rewards, self)

/-- The arguments as they are parsed, before anything is kept. -/
structure Fresh (args : RewardState) : Prop where
  rewardSpk : args.rewardSpk = none
  derivedAddresses : args.derivedAddresses = []

theorem Fresh.cached {self : RewardState} {payee : Payee} (fresh : Fresh self)
    (book : AddressBook) (chosen : Payee.ofState self = some payee) : Cached book self payee := by
  unfold Payee.ofState at chosen
  cases given : self.address with
  | some address =>
      rw [given] at chosen
      cases chosen
      exact ⟨given, Or.inl fresh.rewardSpk⟩
  | none =>
      cases there : self.descriptor with
      | none =>
          rw [given, there] at chosen
          cases chosen
      | some descriptor =>
          rw [given, there] at chosen
          dsimp only at chosen
          split at chosen
          · next ranged =>
              cases chosen
              refine ⟨ranged, there, given, fresh.rewardSpk, ?_⟩
              rw [fresh.derivedAddresses]
              intro entry impossible
              cases impossible
          · next unranged =>
              cases chosen
              exact ⟨unranged, there, Or.inl ⟨given, fresh.rewardSpk⟩⟩

/-- The calls return the addresses of their heights, and what the last one keeps
is recent. -/
theorem rewardCalls_cached {node : RewardNode} {book : AddressBook} {payee : Payee}
    {self : RewardState} {heights : List Nat} (answers : AnswersFrom node book payee)
    (cached : Cached book self payee) :
    Exists fun self' =>
      rewardCalls node self heights = .ok (heights.map fun height =>
          (some (payee.addressAt book height), book.script (payee.addressAt book height)), self') ∧
        Cached book self' payee ∧
        forall height, heights.getLast? = some height -> Recent height self' payee := by
  induction heights generalizing self with
  | nil =>
      refine ⟨self, rfl, cached, ?_⟩
      intro height impossible
      cases impossible
  | cons height heights inductionHypothesis =>
      rcases @getRewardAddrSpk_cached node book self height payee answers cached with
        ⟨middle, call, between, recent⟩
      rcases inductionHypothesis between with ⟨self', calls, left, last⟩
      refine ⟨self', ?_, left, ?_⟩
      · rw [rewardCalls, call]
        simp only [bind, Except.bind, pure, Except.pure, calls, List.map_cons]
      · intro latest same
        cases heights with
        | nil =>
            cases same
            cases calls
            exact recent
        | cons next rest =>
            rw [List.getLast?_cons_cons] at same
            exact last latest same

/-- Caching is transparent: from fresh arguments, the calls for any sequence of
heights return the address of each height and its script, and none fails.  What
is kept for a ranged descriptor after them belongs to heights less than twenty
below the last one, each with its own address. -/
theorem rewardCalls_transparent {node : RewardNode} {book : AddressBook} {payee : Payee}
    {args : RewardState} {heights : List Nat} (chosen : Payee.ofState args = some payee)
    (fresh : Fresh args) (answers : AnswersFrom node book payee) :
    Exists fun self =>
      rewardCalls node args heights = .ok (heights.map fun height =>
          (some (payee.addressAt book height), book.script (payee.addressAt book height)), self) ∧
        forall descriptor height, payee = .ranged descriptor -> heights.getLast? = some height ->
          forall entry, entry ∈ self.derivedAddresses -> (height : Int) - 20 < entry.1 ∧
            Exists fun index : Nat => entry = ((index : Int), book.ranged descriptor index) := by
  rcases rewardCalls_cached answers (fresh.cached book chosen) with ⟨self, calls, cached, recent⟩
  refine ⟨self, calls, ?_⟩
  intro descriptor height same last entry member
  subst same
  exact ⟨recent height last entry member, cached.2.2.2.2 entry member⟩

/-- A node that answers from a book. -/
def AddressBook.node (book : AddressBook) : RewardNode where
  deriveaddresses descriptor range := .ok (match range with
    | none => [book.first descriptor]
    | some (first, last) => (List.range' first.toNat (last.toNat + 1 - first.toNat)).map
        (book.ranged descriptor))
  getaddressinfo address := .ok (toHex (book.script address))

theorem AddressBook.answers (book : AddressBook) (payee : Payee) :
    AnswersFrom book.node book payee where
  script _ := ⟨_, rfl, fromHex_toHex _⟩
  single _ _ := ⟨[], rfl⟩
  ranged _ _ _ _ _ := rfl

def sampleBook : AddressBook where
  first _ := "tb1q0"
  ranged _ index := "tb1q" ++ toString index
  script address := [0x51, UInt8.ofNat address.length]

def rangedArgs : RewardState where
  address := none
  descriptor := some "tr(tpub/*)"

/-- The chain grows, and falls back below what was kept. -/
theorem rewardCalls_transparent_sample :
    Exists fun self =>
      rewardCalls sampleBook.node rangedArgs [5, 30, 7] = .ok ([5, 30, 7].map fun height =>
          (some (sampleBook.ranged "tr(tpub/*)" height),
            sampleBook.script (sampleBook.ranged "tr(tpub/*)" height)), self) ∧
        forall descriptor (height : Nat), Payee.ranged "tr(tpub/*)" = .ranged descriptor ->
          [5, 30, 7].getLast? = some height ->
          forall entry, entry ∈ self.derivedAddresses -> (height : Int) - 20 < entry.1 ∧
            Exists fun index : Nat =>
              entry = ((index : Int), sampleBook.ranged descriptor index) :=
  @rewardCalls_transparent _ _ (.ranged "tr(tpub/*)") rangedArgs [5, 30, 7] (by decide) ⟨rfl, rfl⟩
    (sampleBook.answers _)

end Miner
end MutinyNet
