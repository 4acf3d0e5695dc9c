/-
Queues of lots.  A sale draws its quantity from the front of its asset's queue,
a purchase joins the back; a ledger keeps one queue for each asset and settles
deals in order.  Nothing here depends on what the lots are: a lot carries a tag,
and prices are read off the tags afterwards.
-/
import Mathlib.Algebra.Order.Field.Basic
import Mathlib.Data.List.Basic

namespace LotQueue

variable {Asset Tag Tag' K : Type*}

structure Lot (Tag K : Type*) where
  tag : Tag
  qty : K
deriving DecidableEq, Repr

section Draw

variable [LinearOrder K] [Field K]

/-- Draw `need` from the front of a queue: the pieces taken, and what is left
of the queue. -/
def draw (need : K) :
    List (Lot Tag K) → List (Lot Tag K) × List (Lot Tag K)
  | [] => ([], [])
  | lot :: rest =>
      if need ≤ 0 then ([], lot :: rest)
      else if lot.qty ≤ need then
        (lot :: (draw (need - lot.qty) rest).1,
          (draw (need - lot.qty) rest).2)
      else ([⟨lot.tag, need⟩], ⟨lot.tag, lot.qty - need⟩ :: rest)

variable {need : K}

theorem draw_of_nonpos (hneed : need ≤ 0) (queue : List (Lot Tag K)) :
    draw need queue = ([], queue) := by
  cases queue with
  | nil => rfl
  | cons lot rest => simp only [draw, hneed, ↓reduceIte]

/-- The front lot gives what it can, and the rest is drawn behind it. -/
theorem draw_cons (hneed : 0 < need) (lot : Lot Tag K)
    (rest : List (Lot Tag K)) :
    draw need (lot :: rest) =
      (⟨lot.tag, min lot.qty need⟩ ::
          (draw (need - min lot.qty need) rest).1,
        (if lot.qty ≤ need then [] else [⟨lot.tag, lot.qty - need⟩]) ++
          (draw (need - min lot.qty need) rest).2) := by
  simp only [draw, not_le.mpr hneed, ↓reduceIte]
  split
  next hle => simp only [min_eq_left hle, List.nil_append]
  next hlt =>
    have hmin : min lot.qty need = need := min_eq_right (not_le.mp hlt).le
    simp only [hmin, sub_self, draw_of_nonpos le_rfl, List.cons_append,
      List.nil_append]

/-- Relabel a lot. -/
def Lot.retag (f : Tag → Tag') (lot : Lot Tag K) : Lot Tag' K :=
  ⟨f lot.tag, lot.qty⟩

/-- Drawing does not look at the tags. -/
theorem draw_retag (f : Tag → Tag') (need : K) (queue : List (Lot Tag K)) :
    draw need (queue.map (Lot.retag f)) =
      ((draw need queue).1.map (Lot.retag f),
        (draw need queue).2.map (Lot.retag f)) := by
  induction queue generalizing need with
  | nil => rfl
  | cons lot rest ih =>
      simp only [List.map_cons, draw, Lot.retag]
      split
      · rfl
      split
      · simp only [ih]
        rfl
      · rfl

end Draw

section Value

variable [Field K]

/-- What pieces are worth at given prices. -/
def value (price : Tag → K) (pieces : List (Lot Tag K)) : K :=
  (pieces.map fun piece => piece.qty * price piece.tag).sum

theorem value_retag (f : Tag → Tag') (price : Tag' → K)
    (pieces : List (Lot Tag K)) :
    value price (pieces.map (Lot.retag f)) = value (price ∘ f) pieces := by
  simp only [value, List.map_map]
  rfl

end Value

/-- What one transaction does: it may sell a quantity of an asset, and it may
buy a lot of one. -/
structure Deal (Asset Tag K : Type*) where
  sold : Option (Asset × K)
  bought : Option (Asset × Lot Tag K)
deriving DecidableEq, Repr

/-- The open lots of each asset, oldest first. -/
abbrev Ledger (Asset Tag K : Type*) := Asset → List (Lot Tag K)

def Ledger.empty : Ledger Asset Tag K := fun _ => []

/-- Relabel the lot of a deal. -/
def Deal.retag (f : Tag → Tag') (deal : Deal Asset Tag K) :
    Deal Asset Tag' K :=
  ⟨deal.sold, deal.bought.map fun bought => (bought.1, bought.2.retag f)⟩

/-- Relabel all lots of a ledger. -/
def Ledger.retag (f : Tag → Tag') (ledger : Ledger Asset Tag K) :
    Ledger Asset Tag' K :=
  fun asset => (ledger asset).map (Lot.retag f)

section Settle

variable [LinearOrder K] [Field K]

/-- The pieces a deal sells. -/
def Ledger.pieces (ledger : Ledger Asset Tag K) (deal : Deal Asset Tag K) :
    List (Lot Tag K) :=
  match deal.sold with
  | none => []
  | some (asset, need) => (draw need (ledger asset)).1

theorem Ledger.pieces_retag (f : Tag → Tag') (ledger : Ledger Asset Tag K)
    (deal : Deal Asset Tag K) :
    (ledger.retag f).pieces (deal.retag f) =
      (ledger.pieces deal).map (Lot.retag f) := by
  rcases deal with ⟨_ | ⟨asset, need⟩, bought⟩
  · rfl
  · simp only [pieces, Deal.retag, retag, draw_retag]

variable [DecidableEq Asset]

/-- The ledger once the sale of a deal is drawn. -/
def Ledger.sell (ledger : Ledger Asset Tag K) (deal : Deal Asset Tag K) :
    Ledger Asset Tag K :=
  match deal.sold with
  | none => ledger
  | some (asset, need) =>
      Function.update ledger asset (draw need (ledger asset)).2

/-- The lot a deal adds to the queue of an asset. -/
def Deal.lotOf (deal : Deal Asset Tag K) (asset : Asset) :
    List (Lot Tag K) :=
  match deal.bought with
  | none => []
  | some (bought, lot) => if bought = asset then [lot] else []

/-- The sale of a deal comes first, so that a deal never sells its own lot. -/
def Ledger.settle (ledger : Ledger Asset Tag K) (deal : Deal Asset Tag K) :
    Ledger Asset Tag K :=
  fun asset => ledger.sell deal asset ++ deal.lotOf asset

/-- Settle deals in order. -/
def Ledger.run (ledger : Ledger Asset Tag K)
    (deals : List (Deal Asset Tag K)) : Ledger Asset Tag K :=
  deals.foldl Ledger.settle ledger

theorem Ledger.run_append (ledger : Ledger Asset Tag K)
    (first second : List (Deal Asset Tag K)) :
    ledger.run (first ++ second) = (ledger.run first).run second :=
  List.foldl_append

theorem Ledger.sell_retag (f : Tag → Tag') (ledger : Ledger Asset Tag K)
    (deal : Deal Asset Tag K) :
    (ledger.retag f).sell (deal.retag f) = (ledger.sell deal).retag f := by
  rcases deal with ⟨_ | ⟨asset, need⟩, bought⟩
  · rfl
  · funext other
    by_cases hother : other = asset
    · subst hother
      simp [sell, Deal.retag, retag, draw_retag]
    · simp [sell, Deal.retag, retag, hother]

theorem Ledger.settle_retag (f : Tag → Tag') (ledger : Ledger Asset Tag K)
    (deal : Deal Asset Tag K) :
    (ledger.retag f).settle (deal.retag f) = (ledger.settle deal).retag f := by
  have hlot : ∀ asset, (deal.retag f).lotOf asset =
      (deal.lotOf asset).map (Lot.retag f) := by
    intro asset
    rcases deal with ⟨sold, _ | ⟨bought, lot⟩⟩
    · rfl
    · simp only [Deal.lotOf, Deal.retag, Option.map_some]
      split <;> rfl
  funext asset
  simp only [settle, sell_retag, hlot, retag, List.map_append]

theorem Ledger.run_retag (f : Tag → Tag') (ledger : Ledger Asset Tag K)
    (deals : List (Deal Asset Tag K)) :
    (ledger.retag f).run (deals.map (Deal.retag f)) =
      (ledger.run deals).retag f := by
  induction deals generalizing ledger with
  | nil => rfl
  | cons deal deals ih =>
      simp only [run, List.map_cons, List.foldl_cons, settle_retag]
      exact ih (ledger.settle deal)

end Settle

end LotQueue
