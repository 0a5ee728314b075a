import MutinyNet.Dialogue.Client

namespace MutinyNet
namespace Spark

open Dialogue

/-!
# Funding the wallet of the service provider

`fund-ssp.mjs` sends a ladder of amounts to addresses of the wallet, waits until
all of them have enough confirmations, and claims them one after the other.  It
asks the admin interface of the service, the wallet of the node and the node; any
of them may refuse at any moment, and what they answer on the way is theirs.

What the script remembers is what it was answered in the same run, so each of its
requests can be judged by the exchanges in front of it.
-/

namespace Funding

/-! ## What is asked and answered -/

inductive Request where
  | depositAddress
  | sendtoaddress (address : String) (amount : Int)
  | gettransaction (txid : String)
  | decoderawtransaction (hex : String)
  | claimDeposit (transactionHex : String) (vout : Nat)
  | status
  | sleep
  deriving DecidableEq, Repr

/-- The fields of `gettransaction` that are read. -/
structure WalletTransaction where
  confirmations : Option Int
  hex : String
  deriving DecidableEq, Repr

/-- An output of a decoded transaction. -/
structure Output where
  n : Nat
  address : Option String
  addresses : Option (List String)
  deriving DecidableEq, Repr

/-- The fields of `/status` that are read. -/
structure Status where
  sparkError : Option String
  spark : Option Nat
  deriving DecidableEq, Repr

/-- The answer to a request, or the message of the error that it throws. -/
@[reducible] def Answer : Request -> Type
  | .depositAddress => Except String String
  | .sendtoaddress _ _ => Except String String
  | .gettransaction _ => Except String WalletTransaction
  | .decoderawtransaction _ => Except String (List Output)
  | .claimDeposit _ _ => Except String Unit
  | .status => Except String Status
  | .sleep => Unit

/-- The environment variables. -/
structure Environment where
  bitcoinRpcPassword : Option String := none
  rpcpassword : Option String := none
  sparkAdminToken : String := ""
  fundConfs : Int := 3
  fundMultiplicity : Nat := 20
  fundLadder : List Int := [1000, 2000, 4000, 8000, 16000, 32000, 64000]
  deriving DecidableEq, Repr

/-- `ladder`. -/
def ladder (environment : Environment) : List Int :=
  environment.fundLadder.flatMap (List.replicate environment.fundMultiplicity)

structure Deposit where
  address : String
  amount : Int
  txid : String
  deriving DecidableEq, Repr

/-- Why a run ends without a balance: something was thrown, or the rounds of
waiting that a run is given are used up. -/
inductive Stopped where
  | thrown (message : String)
  | waiting
  deriving DecidableEq, Repr

/-- A part of the script. -/
abbrev Part (A : Type) := Client Request Answer (Except Stopped A)

/-- `await` of a request that may throw. -/
def await {A B : Type} (answer : Except String A) (next : A -> Part B) : Part B :=
  match answer with
  | .ok value => next value
  | .error message => .done (.error (.thrown message))

/-! ## The script -/

/-- The loop that makes the deposits. -/
def sendDeposits : List Int -> List Deposit -> Part (List Deposit)
  | [], deposits => .done (.ok deposits)
  | amount :: rest, deposits =>
      .ask .depositAddress fun answer => await answer fun address =>
        .ask (.sendtoaddress address amount) fun answer => await answer fun txid =>
          sendDeposits rest (deposits ++ [{ address, amount, txid }])

/-- `(tx.confirmations ?? 0) >= CONFIRMATIONS`; what `gettransaction` throws is
caught. -/
def isConfirmed (confirmations : Int) : Except String WalletTransaction -> Bool
  | .ok transaction => confirmations ≤ transaction.confirmations.getD 0
  | .error _ => false

/-- One round over the set of pending transactions. -/
def pollPending (confirmations : Int) : List String -> List String -> Part (List String)
  | [], left => .done (.ok left)
  | txid :: rest, left =>
      .ask (.gettransaction txid) fun answer =>
        pollPending confirmations rest
          (if isConfirmed confirmations answer then left else left ++ [txid])

/-- The loop that waits for the confirmations. -/
def awaitConfirmations (confirmations : Int) : Nat -> List String -> Part Unit
  | _, [] => .done (.ok ())
  | 0, _ :: _ => .done (.error .waiting)
  | rounds + 1, txid :: pending =>
      (pollPending confirmations (txid :: pending) []).orThrow fun left =>
        if left = [] then .done (.ok ())
        else .ask .sleep fun _ => awaitConfirmations confirmations rounds left

/-- The output of a deposit. -/
def Output.pays (output : Output) (address : String) : Bool :=
  output.address = some address || (output.addresses.getD []).contains address

/-- The loop that claims the deposits. -/
def claimDeposits : List Deposit -> Part Unit
  | [] => .done (.ok ())
  | deposit :: rest =>
      .ask (.gettransaction deposit.txid) fun answer => await answer fun walletTransaction =>
        .ask (.decoderawtransaction walletTransaction.hex) fun answer => await answer fun vout =>
          match vout.find? (·.pays deposit.address) with
          | none => .done (.error (.thrown ("deposit output not found in " ++ deposit.txid)))
          | some output =>
              .ask (.claimDeposit walletTransaction.hex output.n) fun answer =>
                await answer fun _ => claimDeposits rest

/-- The balance at the end. -/
def readStatus : Part Nat :=
  .ask .status fun answer => await answer fun status =>
    match status.spark with
    | none => .done (.error (.thrown
        (status.sparkError.getD "SSP Spark wallet status is unavailable")))
    | some balance =>
        if status.sparkError.getD "" = "" then .done (.ok balance)
        else .done (.error (.thrown (status.sparkError.getD "")))

/-- `fund-ssp.mjs`, with a number of rounds to wait in. -/
def fundSsp (environment : Environment) (rounds : Nat) : Part Nat :=
  if (environment.bitcoinRpcPassword.or environment.rpcpassword).getD "" = "" then
    .done (.error (.thrown "set BITCOIN_RPC_PASSWORD or RPCPASSWORD"))
  else if environment.sparkAdminToken = "" then
    .done (.error (.thrown "set SPARK_ADMIN_TOKEN"))
  else
    (sendDeposits (ladder environment) []).orThrow fun deposits =>
      (awaitConfirmations environment.fundConfs rounds (deposits.map (·.txid)).eraseDups).orThrow
        fun _ => (claimDeposits deposits).orThrow fun _ => readStatus

/-! ## What a request takes from the exchanges in front of it -/

/-- The exchanges of a run. -/
abbrev Past := List (Exchange Request Answer)

/-- The deposit that an exchange makes. -/
def made : Exchange Request Answer -> Option Deposit
  | ⟨.sendtoaddress address amount, .ok txid⟩ => some { address, amount, txid }
  | _ => none

def deposits (past : Past) : List Deposit :=
  past.filterMap made

/-- The exchange claims a deposit. -/
def isClaim : Exchange Request Answer -> Bool
  | ⟨.claimDeposit _ _, .ok _⟩ => true
  | _ => false

/-- A transaction was seen with enough confirmations. -/
def Confirmed (environment : Environment) (past : Past) (txid : String) : Prop :=
  Exists fun answer => ⟨.gettransaction txid, answer⟩ ∈ past ∧
    isConfirmed environment.fundConfs answer = true

/-- The claim is for a deposit: its transaction was read and decoded, and the
output pays to its address. -/
structure ClaimFor (past : Past) (deposit : Deposit) (hex : String) (vout : Nat) : Prop where
  read : Exists fun transaction : WalletTransaction => transaction.hex = hex ∧
    ⟨.gettransaction deposit.txid, .ok transaction⟩ ∈ past
  pays : Exists fun outputs : List Output =>
    ⟨.decoderawtransaction hex, .ok outputs⟩ ∈ past ∧ Exists fun output => output ∈ outputs ∧
      output.pays deposit.address = true ∧ output.n = vout

/-- All deposits of the ladder are made, in its order. -/
def AllMade (environment : Environment) (past : Past) : Prop :=
  (deposits past).map Deposit.amount = ladder environment

/-- What each request is right behind. -/
def Right (environment : Environment) (past : Past) : Request -> Prop
  | .depositAddress => Exists fun amount =>
      (ladder environment)[(deposits past).length]? = some amount
  | .sendtoaddress address amount =>
      past.getLast? = some ⟨.depositAddress, .ok address⟩ ∧
        (ladder environment)[(deposits past).length]? = some amount ∧
        (deposits past).map Deposit.amount <+: ladder environment
  | .gettransaction txid =>
      AllMade environment past ∧ Exists fun deposit => deposit ∈ deposits past ∧ deposit.txid = txid
  | .decoderawtransaction hex => AllMade environment past ∧
      Exists fun deposit => Exists fun transaction : WalletTransaction =>
        deposit ∈ deposits past ∧ transaction.hex = hex ∧
        past.getLast? = some ⟨.gettransaction deposit.txid, .ok transaction⟩
  | .claimDeposit hex vout => AllMade environment past ∧
      (forall deposit, deposit ∈ deposits past -> Confirmed environment past deposit.txid) ∧
      Exists fun deposit => (deposits past)[past.countP isClaim]? = some deposit ∧
        ClaimFor past deposit hex vout
  | .status => AllMade environment past ∧ past.countP isClaim = (ladder environment).length
  | .sleep => AllMade environment past

/-! ## What is remembered -/

variable {A B : Type} {environment : Environment} {past : Past}
  {exchange : Exchange Request Answer} {txid : String}

theorem deposits_snoc :
    deposits (past ++ [exchange]) = deposits past ++ (made exchange).toList := by
  rw [deposits, List.filterMap_append]
  cases there : made exchange <;> simp [deposits, there]

theorem deposits_snoc_of_none (other : made exchange = none) :
    deposits (past ++ [exchange]) = deposits past := by
  rw [deposits_snoc, other]
  exact List.append_nil _

theorem claims_snoc_of_false (other : isClaim exchange = false) :
    (past ++ [exchange]).countP isClaim = past.countP isClaim := by
  rw [List.countP_append, List.countP_singleton, other]
  simp

theorem Confirmed.snoc (confirmed : Confirmed environment past txid) :
    Confirmed environment (past ++ [exchange]) txid := by
  rcases confirmed with ⟨answer, member, enough⟩
  exact ⟨answer, List.mem_append_left _ member, enough⟩

/-- The deposits of the ladder are made and none of them is claimed. -/
structure Made (environment : Environment) (made : List Deposit) (past : Past) : Prop where
  deposits : deposits past = made
  amounts : made.map Deposit.amount = ladder environment
  unclaimed : past.countP isClaim = 0

theorem Made.snoc {sent : List Deposit} (done : Made environment sent past)
    (neither : made exchange = none) (unclaiming : isClaim exchange = false) :
    Made environment sent (past ++ [exchange]) where
  deposits := (deposits_snoc_of_none neither).trans done.deposits
  amounts := done.amounts
  unclaimed := (claims_snoc_of_false unclaiming).trans done.unclaimed

theorem Made.allMade {sent : List Deposit} (done : Made environment sent past) :
    AllMade environment past := by
  rw [AllMade, done.deposits]
  exact done.amounts

/-! ## What each part asks -/

/-- A request is right, and a part that waits in vain has used its rounds up. -/
abbrev AsksRight (environment : Environment) (rounds : Nat) (reached : A -> Past -> Prop)
    (part : Part A) (past : Past) : Prop :=
  part.Asks (Right environment)
    (fun result past => match result with
      | .ok value => reached value past
      | .error (.thrown _) => True
      | .error .waiting => rounds ≤ past.length) past

variable {rounds : Nat} {reached : A -> Past -> Prop}

theorem asksRight_await {answer : Except String B} {next : B -> Part A}
    (goesOn : forall value, answer = .ok value ->
      AsksRight environment rounds reached (next value) past) :
    AsksRight environment rounds reached (await answer next) past := by
  cases answer with
  | ok value => exact goesOn value rfl
  | error message => trivial

theorem asksRight_orThrow {part : Part B} {next : B -> Part A} {between : B -> Past -> Prop}
    (first : AsksRight environment rounds between part past)
    (second : forall value past, between value past ->
      AsksRight environment rounds reached (next value) past) :
    AsksRight environment rounds reached (part.orThrow next) past := by
  apply Client.asks_orThrow _ second
  apply Client.Asks.mono first
  intro result past held
  cases result with
  | ok value => exact held
  | error stopped => cases stopped <;> exact held

/-- The deposits are made one by one, each to the address given for it. -/
theorem asksRight_sendDeposits {rest : List Int} {sent : List Deposit}
    (deposited : deposits past = sent)
    (amounts : sent.map Deposit.amount ++ rest = ladder environment)
    (unclaimed : past.countP isClaim = 0) :
    AsksRight environment rounds (fun sent past => Made environment sent past)
      (sendDeposits rest sent) past := by
  induction rest generalizing past sent with
  | nil =>
      rw [List.append_nil] at amounts
      exact ⟨deposited, amounts, unclaimed⟩
  | cons amount rest inductionHypothesis =>
      have turn : forall {past : Past}, deposits past = sent ->
          (ladder environment)[(deposits past).length]? = some amount := by
        intro past deposited
        rw [deposited, ← amounts]
        simp
      refine ⟨⟨amount, turn deposited⟩, ?_⟩
      intro answer
      apply asksRight_await
      intro address given
      subst given
      have still := (@deposits_snoc_of_none past ⟨.depositAddress, .ok address⟩ rfl).trans deposited
      have unclaimed' :=
        (@claims_snoc_of_false past ⟨.depositAddress, .ok address⟩ rfl).trans unclaimed
      refine ⟨⟨List.getLast?_concat, turn still, ?_⟩, ?_⟩
      · rw [still, ← amounts]
        exact List.prefix_append _ _
      · intro answer
        apply asksRight_await
        intro txid sentAs
        subst sentAs
        apply inductionHypothesis
        · rw [deposits_snoc, still]
          rfl
        · rw [List.map_append, List.append_assoc]
          exact amounts
        · exact (claims_snoc_of_false rfl).trans unclaimed'

/-- The transactions that are still waited for. -/
structure Waits (environment : Environment) (sent : List Deposit) (pending : List String)
    (past : Past) : Prop where
  made : Made environment sent past
  known : forall txid, txid ∈ pending -> Exists fun deposit => deposit ∈ sent ∧ deposit.txid = txid
  rest : forall deposit, deposit ∈ sent ->
    Confirmed environment past deposit.txid ∨ deposit.txid ∈ pending

theorem asksRight_pollPending {sent : List Deposit} {pending left : List String} {spent : Nat}
    (waits : Waits environment sent (left ++ pending) past) (used : spent ≤ past.length) :
    AsksRight environment rounds
      (fun left past => Waits environment sent left past ∧ spent + pending.length ≤ past.length)
      (pollPending environment.fundConfs pending left) past := by
  induction pending generalizing past left spent with
  | nil =>
      rw [List.append_nil] at waits
      exact ⟨waits, used⟩
  | cons txid pending inductionHypothesis =>
      have known := waits.known txid (List.mem_append_right left List.mem_cons_self)
      refine ⟨⟨waits.made.allMade, ?_⟩, ?_⟩
      · rw [waits.made.deposits]
        exact known
      · intro answer
        have done := waits.made.snoc
          (@rfl _ (made ⟨.gettransaction txid, answer⟩)) rfl
        have longer : spent + 1 ≤
            (past ++ [(⟨.gettransaction txid, answer⟩ : Exchange Request Answer)]).length := by
          rw [List.length_append, List.length_singleton]
          omega
        have later : Waits environment sent
            ((if isConfirmed environment.fundConfs answer then left else left ++ [txid]) ++ pending)
            (past ++ [⟨.gettransaction txid, answer⟩]) := by
          cases enough : isConfirmed environment.fundConfs answer with
          | true =>
              refine ⟨done, ?_, ?_⟩
              · intro other member
                apply waits.known
                rw [if_pos rfl] at member
                rcases List.mem_append.mp member with before | behind
                · exact List.mem_append_left _ before
                · exact List.mem_append_right _ (List.mem_cons_of_mem txid behind)
              · intro deposit member
                rw [if_pos rfl]
                by_cases same : deposit.txid = txid
                · exact Or.inl ⟨answer, List.mem_append_right _ (by rw [same]; simp), enough⟩
                · rcases waits.rest deposit member with confirmed | waiting
                  · exact Or.inl confirmed.snoc
                  · right
                    rcases List.mem_append.mp waiting with before | behind
                    · exact List.mem_append_left _ before
                    · exact List.mem_append_right _ ((List.mem_cons.mp behind).resolve_left same)
          | false =>
              rw [if_neg (by simp), List.append_assoc, List.singleton_append]
              refine ⟨done, waits.known, ?_⟩
              intro deposit member
              exact (waits.rest deposit member).imp_left Confirmed.snoc
        apply Client.Asks.mono (inductionHypothesis later longer)
        intro result past held
        cases result with
        | ok left =>
            refine ⟨held.1, ?_⟩
            rw [List.length_cons]
            have enough := held.2
            omega
        | error stopped => cases stopped <;> exact held

theorem asksRight_awaitConfirmations {sent : List Deposit} {pending : List String} {left : Nat}
    (waits : Waits environment sent pending past) (used : rounds ≤ past.length + left) :
    AsksRight environment rounds (fun _ past => Waits environment sent [] past)
      (awaitConfirmations environment.fundConfs left pending) past := by
  induction left generalizing pending past with
  | zero =>
      cases pending with
      | nil => exact waits
      | cons txid pending => exact used
  | succ left inductionHypothesis =>
      cases pending with
      | nil => exact waits
      | cons txid pending =>
          apply asksRight_orThrow
            (@asksRight_pollPending _ _ rounds sent (txid :: pending) [] past.length waits le_rfl)
          rintro remaining later ⟨waits', longer⟩
          rw [List.length_cons] at longer
          split
          · next none =>
              rw [none] at waits'
              exact waits'
          · refine ⟨waits'.made.allMade, ?_⟩
            intro answer
            apply inductionHypothesis
            · exact ⟨waits'.made.snoc rfl rfl, waits'.known,
                fun deposit member => (waits'.rest deposit member).imp_left Confirmed.snoc⟩
            · rw [List.length_append, List.length_singleton]
              omega

/-- Some deposits are claimed, in their order, and all are confirmed. -/
structure Claims (environment : Environment) (claimed rest : List Deposit) (past : Past) :
    Prop where
  deposits : deposits past = claimed ++ rest
  amounts : (claimed ++ rest).map Deposit.amount = ladder environment
  confirmed : forall deposit, deposit ∈ claimed ++ rest -> Confirmed environment past deposit.txid
  count : past.countP isClaim = claimed.length

theorem Claims.allMade {claimed rest : List Deposit}
    (claims : Claims environment claimed rest past) : AllMade environment past := by
  rw [AllMade, claims.deposits]
  exact claims.amounts

theorem Claims.snoc {claimed rest : List Deposit} (claims : Claims environment claimed rest past)
    (neither : made exchange = none) (unclaiming : isClaim exchange = false) :
    Claims environment claimed rest (past ++ [exchange]) where
  deposits := (deposits_snoc_of_none neither).trans claims.deposits
  amounts := claims.amounts
  confirmed deposit member := (claims.confirmed deposit member).snoc
  count := (claims_snoc_of_false unclaiming).trans claims.count

theorem asksRight_claimDeposits {claimed rest : List Deposit}
    (claims : Claims environment claimed rest past) :
    AsksRight environment rounds (fun _ past => Claims environment (claimed ++ rest) [] past)
      (claimDeposits rest) past := by
  induction rest generalizing past claimed with
  | nil =>
      rw [List.append_nil]
      exact claims
  | cons deposit rest inductionHypothesis =>
      have inside : deposit ∈ claimed ++ deposit :: rest :=
        List.mem_append_right claimed List.mem_cons_self
      refine ⟨⟨claims.allMade, deposit, ?_, rfl⟩, ?_⟩
      · rw [claims.deposits]
        exact inside
      · intro answer
        apply asksRight_await
        intro transaction read
        subst read
        have first := claims.snoc
          (@rfl _ (made ⟨.gettransaction deposit.txid, .ok transaction⟩)) rfl
        refine ⟨⟨first.allMade, deposit, transaction, ?_, rfl, List.getLast?_concat⟩, ?_⟩
        · rw [first.deposits]
          exact inside
        · intro answer
          apply asksRight_await
          intro outputs decoded
          subst decoded
          have second := first.snoc
            (@rfl _ (made ⟨.decoderawtransaction transaction.hex, .ok outputs⟩)) rfl
          split
          · trivial
          · next output found =>
              refine ⟨⟨second.allMade, ?_, deposit, ?_, ?_, ?_⟩, ?_⟩
              · intro other member
                rw [second.deposits] at member
                exact second.confirmed other member
              · rw [second.deposits, second.count]
                simp
              · exact ⟨transaction, rfl, by simp⟩
              · exact ⟨outputs, by simp, output, List.mem_of_find?_eq_some found,
                  @List.find?_some _ (fun output : Output => output.pays deposit.address) _ _ found,
                  rfl⟩
              · intro answer
                apply asksRight_await
                intro nothing accepted
                subst accepted
                have whole : claimed ++ deposit :: rest = (claimed ++ [deposit]) ++ rest := by simp
                rw [whole]
                apply inductionHypothesis
                refine ⟨?_, ?_, ?_, ?_⟩
                · exact (deposits_snoc_of_none rfl).trans (second.deposits.trans whole)
                · rw [← whole]
                  exact second.amounts
                · intro other member
                  rw [← whole] at member
                  exact (second.confirmed other member).snoc
                · rw [List.countP_append, second.count, List.length_append]
                  rfl

/-- All deposits of the ladder are made, confirmed and claimed. -/
structure Funded (environment : Environment) (past : Past) : Prop where
  made : AllMade environment past
  confirmed : forall deposit, deposit ∈ deposits past -> Confirmed environment past deposit.txid
  claimed : past.countP isClaim = (ladder environment).length

theorem Claims.funded {claimed : List Deposit} (claims : Claims environment claimed [] past) :
    Funded environment past where
  made := claims.allMade
  confirmed deposit member := by
    rw [claims.deposits] at member
    exact claims.confirmed deposit member
  claimed := by
    rw [claims.count, ← claims.amounts, List.append_nil, List.length_map]

theorem funded_snoc (funded : Funded environment past) (neither : made exchange = none)
    (unclaiming : isClaim exchange = false) : Funded environment (past ++ [exchange]) where
  made := by
    rw [AllMade, deposits_snoc_of_none neither]
    exact funded.made
  confirmed := by
    intro deposit member
    rw [deposits_snoc_of_none neither] at member
    exact (funded.confirmed deposit member).snoc
  claimed := (claims_snoc_of_false unclaiming).trans funded.claimed

theorem asksRight_readStatus (funded : Funded environment past) :
    AsksRight environment rounds (fun _ past => Funded environment past) readStatus past := by
  refine ⟨⟨funded.made, funded.claimed⟩, ?_⟩
  intro answer
  apply asksRight_await
  intro status read
  subst read
  have still := funded_snoc funded (@rfl _ (made ⟨.status, .ok status⟩)) rfl
  split
  · trivial
  · split
    · exact still
    · trivial

theorem asksRight_fundSsp : AsksRight environment rounds (fun _ past => Funded environment past)
    (fundSsp environment rounds) [] := by
  unfold fundSsp
  split
  · trivial
  · split
    · trivial
    · apply asksRight_orThrow
        (@asksRight_sendDeposits environment [] rounds (ladder environment) [] rfl rfl rfl)
      intro sent past made
      have waits : Waits environment sent (sent.map Deposit.txid).eraseDups past := by
        refine ⟨made, ?_, ?_⟩
        · intro txid member
          rw [List.mem_eraseDups] at member
          rcases List.mem_map.mp member with ⟨deposit, inside, same⟩
          exact ⟨deposit, inside, same⟩
        · intro deposit member
          rw [List.mem_eraseDups]
          exact Or.inr (List.mem_map_of_mem member)
      apply asksRight_orThrow (asksRight_awaitConfirmations waits (Nat.le_add_left _ _))
      intro _ past waited
      have claims : Claims environment [] sent past := by
        refine ⟨waited.made.deposits, waited.made.amounts, ?_, waited.made.unclaimed⟩
        intro deposit member
        exact (waited.rest deposit member).resolve_right List.not_mem_nil
      apply asksRight_orThrow (asksRight_claimDeposits claims)
      intro _ past claimed
      exact asksRight_readStatus claimed.funded

/-- Whatever the service and the node answer, and wherever the script is cut: each
of its requests is right behind the exchanges in front of it, a balance is printed
only where all deposits are made, confirmed and claimed, and the script waits as
long as it is answered. -/
theorem right_of_run (environment : Environment) (rounds : Nat)
    (answers : List (forall request, Answer request)) :
    (forall before exchange after,
      ((fundSsp environment rounds).run answers).1 = before ++ exchange :: after ->
        Right environment before exchange.request) ∧
    (forall balance, ((fundSsp environment rounds).run answers).2 = some (.ok balance) ->
      Funded environment ((fundSsp environment rounds).run answers).1) ∧
    (answers.length < rounds ->
      ((fundSsp environment rounds).run answers).2 ≠ some (.error .waiting)) := by
  have sound := (@asksRight_fundSsp environment rounds).sound answers
  refine ⟨sound.1, fun balance ended => sound.2 _ ended, ?_⟩
  intro enough ended
  have waited : rounds ≤ ((fundSsp environment rounds).run answers).1.length := sound.2 _ ended
  have short := @Client.length_of_run _ _ _ (fundSsp environment rounds) answers
  omega

/-- A service and a node that answer as they should. -/
def willing : forall request, Answer request
  | .depositAddress => .ok "tb1q"
  | .sendtoaddress _ _ => .ok "aa"
  | .gettransaction _ => .ok { confirmations := some 3, hex := "00" }
  | .decoderawtransaction _ => .ok [{ n := 0, address := none, addresses := none },
      { n := 1, address := some "tb1q", addresses := none }]
  | .claimDeposit _ _ => .ok ()
  | .status => .ok { sparkError := none, spark := some 1000 }
  | .sleep => ()

/-- One deposit. -/
def oneDeposit : Environment where
  rpcpassword := some "p"
  sparkAdminToken := "t"
  fundMultiplicity := 1
  fundLadder := [1000]

example : ((fundSsp oneDeposit 9).run (List.replicate 8 willing)).2 = some (.ok 1000) := by
  decide

end Funding

end Spark
end MutinyNet
