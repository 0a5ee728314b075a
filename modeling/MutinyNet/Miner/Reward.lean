import MutinyNet.Miner.Arguments

namespace MutinyNet
namespace Miner

open Codec Python

/-!
# The reward address

`get_reward_addr_spk` asks the node for an address and its script once and
keeps both, except for a ranged descriptor, whose addresses for the next twenty
heights it keeps in a dictionary.  What it keeps are attributes of the parsed
arguments, here a state of its own.
-/

/-- The attributes `get_reward_addr_spk` reads and writes. -/
structure RewardState where
  address : Option String
  descriptor : Option String
  rewardSpk : Option Bytes := none
  derivedAddresses : List (Int × String) := []
  deriving DecidableEq, Repr

/-- The two commands it asks the node; a range of `deriveaddresses` is
optional. -/
structure RewardNode where
  deriveaddresses : String -> Option (Int × Int) -> Except PyError (List String)
  getaddressinfo : String -> Except PyError String

namespace RewardState

/-- `d[key] = value` of a dictionary. -/
def insertAddress (addresses : List (Int × String)) (height : Int) (address : String) :
    List (Int × String) :=
  match addresses with
  | [] => [(height, address)]
  | entry :: rest =>
      if entry.1 = height then (height, address) :: rest
      else entry :: insertAddress rest height address

/-- `for k, a in enumerate(addrs): derived[height + k] = a`. -/
def insertAddresses (addresses : List (Int × String)) (height : Int) :
    List String -> List (Int × String)
  | [] => addresses
  | address :: later =>
      insertAddresses (insertAddress addresses height address) (height + 1) later

/-- The address of a ranged descriptor at a height, through the dictionary. -/
def rangedAddress (node : RewardNode) (self : RewardState) (descriptor : String) (height : Int) :
    Except PyError (String × RewardState) := do
  let kept := self.derivedAddresses.filter fun entry => ¬ entry.1 + 20 ≤ height
  let derived ← match kept.lookup height with
    | some _ => pure kept
    | none => do
        let addrs ← node.deriveaddresses descriptor (some (height, height + 20))
        pure (insertAddresses kept height addrs)
  match derived.lookup height with
  | none => .error .keyError
  | some address => pure (address, { self with derivedAddresses := derived })

/-- The address to pay to, without its script. -/
def rewardAddress (node : RewardNode) (self : RewardState) (height : Int) :
    Except PyError (String × RewardState) :=
  match self.address, self.descriptor with
  | some address, _ => pure (address, self)
  | none, none => .error .assertionError
  | none, some descriptor =>
      if '*' ∈ descriptor.toList then self.rangedAddress node descriptor height
      else do
        let addrs ← node.deriveaddresses descriptor none
        match addrs with
        | [] => .error .indexError
        | address :: _ => pure (address, { self with address := some address })

/-- `get_reward_addr_spk`. -/
def getRewardAddrSpk (node : RewardNode) (self : RewardState) (height : Int) :
    Except PyError ((Option String × Bytes) × RewardState) := do
  assert (self.address.isSome || self.descriptor.isSome)
  match self.rewardSpk with
  | some rewardSpk => pure ((self.address, rewardSpk), self)
  | none => do
      let (rewardAddr, self) ← self.rewardAddress node height
      let scriptPubKey ← node.getaddressinfo rewardAddr
      let rewardSpk ← fromHex scriptPubKey
      let self := if self.address.isSome then { self with rewardSpk := some rewardSpk } else self
      pure ((some rewardAddr, rewardSpk), self)

end RewardState

end Miner
end MutinyNet
