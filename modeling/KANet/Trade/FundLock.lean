import KANet.Lib.Table
import Mathlib.Data.Rat.Defs
import Mathlib.Algebra.Order.Ring.Rat

/-!
# Fund locks

`fund-lock.js`: an order holds at most one lock for each asset.  A lock is taken
when an order is accepted, spent when the order completes and released when it is
called off; only a lock that is still `locked` can be either.
-/

namespace KANet.Trade

open KANet.Lib

abbrev OrderId := String

inductive LockStatus
  | locked | released | spent
  deriving DecidableEq, Repr

structure FundLock where
  agent_address : String
  order_id : OrderId
  asset : String
  amount : ℚ
  status : LockStatus
  created_at : Nat
  released_at : Option Nat

/-- `UNIQUE(order_id, asset)` -/
def FundLock.key (l : FundLock) : OrderId × String := (l.order_id, l.asset)

abbrev FundLocks := Table FundLock.key

def FundLock.settle (status : LockStatus) (now : Nat) (l : FundLock) : FundLock :=
  { l with status := status, released_at := some now }

@[simp] theorem FundLock.settle_key (status : LockStatus) (now : Nat) (l : FundLock) :
    (l.settle status now).key = l.key := rfl

/-- What becomes of the locks of one order; the others stay. -/
def settleLocks (locks : FundLocks) (status : LockStatus) (now : Nat) (orderId : OrderId) :
    FundLocks :=
  locks.updateWhere (fun l => l.order_id = orderId && l.status = .locked)
    (FundLock.settle status now) (FundLock.settle_key status now)

def releaseFunds (locks : FundLocks) (now : Nat) (orderId : OrderId) : FundLocks :=
  settleLocks locks .released now orderId

def spendFunds (locks : FundLocks) (now : Nat) (orderId : OrderId) : FundLocks :=
  settleLocks locks .spent now orderId

def getLockedTotal (locks : FundLocks) (agentAddress asset : String) : ℚ :=
  ((locks.rows.filter fun l =>
    l.agent_address = agentAddress && l.asset = asset && l.status = .locked).map
      FundLock.amount).sum

inductive LockError
  | invalid_parameters
  | already (status : LockStatus)
  | insufficient_available_balance (available needed locked : ℚ)

/-- Amounts are exact here where the service adds doubles. -/
def lockFunds (locks : FundLocks) (now : Nat) (agentAddress : String) (orderId : OrderId)
    (asset : String) (amount currentBalance : ℚ) : Except LockError FundLocks :=
  if agentAddress = "" || orderId = "" || asset = "" || amount ≤ 0 then
    .error .invalid_parameters
  else
    match locks.get (orderId, asset) with
    | some existing =>
      if existing.status = .locked then .ok locks else .error (.already existing.status)
    | none =>
      let lockedTotal := getLockedTotal locks agentAddress asset
      let available := currentBalance - lockedTotal
      if available < amount then
        .error (.insufficient_available_balance (max 0 available) amount lockedTotal)
      else
        let lock : FundLock :=
          { agent_address := agentAddress, order_id := orderId, asset := asset, amount := amount
            status := .locked, created_at := now, released_at := none }
        match locks.insert lock with
        | some locks' => .ok locks'
        -- the key was looked up above and is free
        | none => .ok locks

/-- Settling an order is seen in its own locks only. -/
theorem get_settleLocks (locks : FundLocks) (status : LockStatus) (now : Nat)
    (orderId : OrderId) (k : OrderId × String) :
    (settleLocks locks status now orderId).get k = (locks.get k).map fun l =>
      if l.order_id = orderId ∧ l.status = .locked then l.settle status now else l := by
  rw [settleLocks, Table.get_updateWhere]
  congr 1
  funext l
  simp

theorem get_settleLocks_ne (locks : FundLocks) (status : LockStatus) (now : Nat)
    {orderId : OrderId} {k : OrderId × String} (h : k.1 ≠ orderId) :
    (settleLocks locks status now orderId).get k = locks.get k := by
  rw [get_settleLocks]
  cases hl : locks.get k with
  | none => rfl
  | some l =>
    have hkey : l.key = k := Table.key_of_get hl
    have hne : l.order_id ≠ orderId := by
      rw [← hkey] at h
      exact h
    simp [hne]

end KANet.Trade
