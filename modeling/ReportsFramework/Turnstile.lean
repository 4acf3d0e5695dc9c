/-
A turnstile for two kinds of calls.  A plain call waits for the exclusive calls
made before it.  An exclusive call waits at the gate for the plain calls made
before it, then takes a ticket and waits in the lane for the exclusive calls
that took theirs earlier.  Whom a call waits for is fixed by a snapshot of the
set of pending calls; the sets themselves are cleaned up later, in any order.
-/
import Mathlib.Data.Finset.Basic
import Mathlib.Data.Prod.Lex
import Mathlib.Logic.Relation

namespace Turnstile

/-- Where a call stands. -/
inductive Place
  | away
  | plain (ahead : Finset ℕ)
  | gate (ahead : Finset ℕ)
  | lane (ticket : ℕ) (ahead : Finset ℕ)
  | inside
  | leaving

namespace Place

/-- The plain call has not run yet. -/
@[grind] def HoldsPlain : Place → Prop
  | plain _ => True
  | _ => False

/-- The exclusive call has not left yet. -/
@[grind] def HoldsGate : Place → Prop
  | gate _ | lane _ _ | inside | leaving => True
  | _ => False

/-- The exclusive call has its ticket and is not done with it. -/
@[grind] def HoldsTicket : Place → Prop
  | lane _ _ | inside => True
  | _ => False

/-- A call waits only for calls of a smaller rank. -/
@[grind] def rank (c : ℕ) : Place → ℕ ×ₗ ℕ
  | plain _ | gate _ => toLex (1, c)
  | lane ticket _ => toLex (0, ticket + 1)
  | _ => toLex (0, 0)

end Place

structure State where
  next : ℕ
  place : ℕ → Place
  plains : Finset ℕ
  exclusives : Finset ℕ
  tickets : Finset ℕ

/-- Calls and tickets are numbered together by `next`. -/
inductive Step (s : State) : State → Prop
  | callPlain :
      Step s { s with
        next := s.next + 1
        place := Function.update s.place s.next (.plain s.exclusives)
        plains := insert s.next s.plains }
  | runPlain {c ahead} (hplace : s.place c = .plain ahead)
      (hahead : ∀ d ∈ ahead, ¬ (s.place d).HoldsGate) :
      Step s { s with place := Function.update s.place c .away }
  | callExclusive :
      Step s { s with
        next := s.next + 1
        place := Function.update s.place s.next (.gate s.plains)
        exclusives := insert s.next s.exclusives }
  | takeTicket {c ahead} (hplace : s.place c = .gate ahead)
      (hahead : ∀ d ∈ ahead, ¬ (s.place d).HoldsPlain) :
      Step s { s with
        next := s.next + 1
        place := Function.update s.place c (.lane s.next s.tickets)
        tickets := insert c s.tickets }
  | enter {c ticket ahead} (hplace : s.place c = .lane ticket ahead)
      (hahead : ∀ d ∈ ahead, ¬ (s.place d).HoldsTicket) :
      Step s { s with place := Function.update s.place c .inside }
  | exit {c} (hplace : s.place c = .inside) :
      Step s { s with place := Function.update s.place c .leaving }
  | leave {c} (hplace : s.place c = .leaving) :
      Step s { s with place := Function.update s.place c .away }
  | forgetPlain {c} (hplace : ¬ (s.place c).HoldsPlain) :
      Step s { s with plains := s.plains.erase c }
  | forgetExclusive {c} (hplace : ¬ (s.place c).HoldsGate) :
      Step s { s with exclusives := s.exclusives.erase c }
  | forgetTicket {c} (hplace : ¬ (s.place c).HoldsTicket) :
      Step s { s with tickets := s.tickets.erase c }

variable {s s' : State}

namespace Step

variable {c : ℕ}

/-! What one step can have done, read off the state it leads to. -/

theorem next_le (h : Step s s') : s.next ≤ s'.next := by
  cases h <;> simp

theorem plain_of {ahead : Finset ℕ} (h : Step s s')
    (hc : s'.place c = .plain ahead) :
    s.place c = .plain ahead ∨ c = s.next ∧ ahead = s.exclusives := by
  cases h <;> grind

theorem gate_of {ahead : Finset ℕ} (h : Step s s')
    (hc : s'.place c = .gate ahead) :
    s.place c = .gate ahead ∨ c = s.next ∧ ahead = s.plains := by
  cases h <;> grind

/-- A call gets into the lane from the gate, with a new ticket, once the plain
calls ahead of it have run. -/
theorem lane_of {ticket : ℕ} {ahead : Finset ℕ} (h : Step s s')
    (hc : s'.place c = .lane ticket ahead) :
    s.place c = .lane ticket ahead ∨
      ticket = s.next ∧ ticket < s'.next ∧ ahead = s.tickets ∧
        ∃ ahead', s.place c = .gate ahead' ∧
          ∀ d ∈ ahead', ¬ (s.place d).HoldsPlain := by
  cases h <;> grind

/-- A call gets inside from the lane, once nobody ahead of it holds a ticket. -/
theorem inside_of (h : Step s s') (hc : s'.place c = .inside) :
    s.place c = .inside ∨
      ∃ ticket ahead, s.place c = .lane ticket ahead ∧
        ∀ d ∈ ahead, ¬ (s.place d).HoldsTicket := by
  cases h <;> grind

theorem holdsPlain_of (h : Step s s') (hc : (s'.place c).HoldsPlain) :
    (s.place c).HoldsPlain ∨ c = s.next := by
  cases h <;> grind

theorem holdsGate_of (h : Step s s') (hc : (s'.place c).HoldsGate) :
    (s.place c).HoldsGate ∨ c = s.next := by
  cases h <;> grind

theorem holdsTicket_of (h : Step s s') (hc : (s'.place c).HoldsTicket) :
    (s.place c).HoldsTicket ∨
      ∃ ahead, s.place c = .gate ahead ∧
        ∀ d ∈ ahead, ¬ (s.place d).HoldsPlain := by
  cases h <;> grind

/-- A step moves one call at most. -/
theorem place_of_ne {d : ℕ} (h : Step s s') (hc : s'.place c ≠ s.place c)
    (hne : d ≠ c) : s'.place d = s.place d := by
  cases h <;> grind

theorem tickets_of (h : Step s s') (hc : c ∈ s'.tickets) :
    c ∈ s.tickets ∨ (s'.place c).HoldsTicket := by
  cases h <;> grind

end Step

/-- The numbers given out so far bound everything, and every pending call is in
its set. -/
structure Known (s : State) : Prop where
  lt_next {c} : s.place c ≠ .away → c < s.next
  tickets_lt {c} : c ∈ s.tickets → c < s.next
  plains_lt {c} : c ∈ s.plains → c < s.next
  exclusives_lt {c} : c ∈ s.exclusives → c < s.next
  mem_plains {c} : (s.place c).HoldsPlain → c ∈ s.plains
  mem_exclusives {c} : (s.place c).HoldsGate → c ∈ s.exclusives
  mem_tickets {c} : (s.place c).HoldsTicket → c ∈ s.tickets

theorem Known.step (hs : Known s) (h : Step s s') : Known s' := by
  cases h <;> constructor <;> grind [Known]

/-- Plain calls and calls at the gate wait for calls made before them, for every
such call that is still pending; past the gate no earlier plain call is left. -/
structure AtGate (s : State) : Prop where
  plain_lt {c ahead d} : s.place c = .plain ahead → d ∈ ahead → d < c
  gate_lt {c ahead d} : s.place c = .gate ahead → d ∈ ahead → d < c
  plain_sees {c ahead d} :
    s.place c = .plain ahead → (s.place d).HoldsGate → d < c → d ∈ ahead
  gate_sees {c ahead d} :
    s.place c = .gate ahead → (s.place d).HoldsPlain → d < c → d ∈ ahead
  past_gate {c d} : (s.place c).HoldsTicket → (s.place d).HoldsPlain → c < d

theorem AtGate.step (hs : AtGate s) (hk : Known s) (h : Step s s') :
    AtGate s' where
  plain_lt hc hd := by
    rcases h.plain_of hc with hc | ⟨rfl, rfl⟩
    · exact hs.plain_lt hc hd
    · exact hk.exclusives_lt hd
  gate_lt hc hd := by
    rcases h.gate_of hc with hc | ⟨rfl, rfl⟩
    · exact hs.gate_lt hc hd
    · exact hk.plains_lt hd
  plain_sees {c ahead d} hc hd hlt := by
    rcases h.plain_of hc with hc | ⟨rfl, rfl⟩ <;>
      rcases h.holdsGate_of hd with hd | rfl
    · exact hs.plain_sees hc hd hlt
    · have hlt' : c < s.next := hk.lt_next (by simp [hc])
      omega
    · exact hk.mem_exclusives hd
    · exact absurd hlt (lt_irrefl _)
  gate_sees {c ahead d} hc hd hlt := by
    rcases h.gate_of hc with hc | ⟨rfl, rfl⟩ <;>
      rcases h.holdsPlain_of hd with hd | rfl
    · exact hs.gate_sees hc hd hlt
    · have hlt' : c < s.next := hk.lt_next (by simp [hc])
      omega
    · exact hk.mem_plains hd
    · exact absurd hlt (lt_irrefl _)
  past_gate {c d} hc hd := by
    -- a call that was there before the step is older than one the step makes
    have hnew : s.place c ≠ .away → d = s.next → c < d := by
      rintro hc rfl
      exact hk.lt_next hc
    rcases h.holdsTicket_of hc with hc | ⟨ahead, hc, hahead⟩
    · rcases h.holdsPlain_of hd with hd | hd
      · exact hs.past_gate hc hd
      · exact hnew (by grind) hd
    · rcases h.holdsPlain_of hd with hd | hd
      · by_contra hlt
        have hne : d ≠ c := by grind
        exact hahead d (hs.gate_sees hc hd (by omega)) hd
      · exact hnew (by simp [hc]) hd

/-- In the lane the later of two calls waits for the earlier one, and all of
them wait for the call inside, which is the only one there. -/
structure InLane (s : State) : Prop where
  tickets_past {c ahead} : c ∈ s.tickets → s.place c ≠ .gate ahead
  ahead_lt {c ticket ahead d} :
    s.place c = .lane ticket ahead → d ∈ ahead → d < s.next
  ahead_past {c ticket ahead d ahead'} :
    s.place c = .lane ticket ahead → d ∈ ahead → s.place d ≠ .gate ahead'
  ticket_lt {c ticket ahead} : s.place c = .lane ticket ahead → ticket < s.next
  lane_sees {c ticket ahead d ticket' ahead'} :
    s.place c = .lane ticket ahead → s.place d = .lane ticket' ahead' →
      c ≠ d → c ∈ ahead' ∨ d ∈ ahead
  lane_order {c ticket ahead d ticket' ahead'} :
    s.place c = .lane ticket ahead → s.place d = .lane ticket' ahead' →
      d ∈ ahead → ticket' < ticket
  lane_sees_inside {c ticket ahead d} :
    s.place c = .lane ticket ahead → s.place d = .inside → d ∈ ahead
  inside_unique {c d} : s.place c = .inside → s.place d = .inside → c = d

theorem InLane.step (hs : InLane s) (hk : Known s) (h : Step s s') :
    InLane s' where
  tickets_past {c ahead} hc hgate := by
    rcases h.tickets_of hc with hc | hc
    · rcases h.gate_of hgate with hgate | ⟨rfl, -⟩
      · exact hs.tickets_past hc hgate
      · exact absurd (hk.tickets_lt hc) (lt_irrefl _)
    · simp [hgate, Place.HoldsTicket] at hc
  ahead_lt hc hd := by
    rcases h.lane_of hc with hc | ⟨-, -, rfl, -⟩
    · exact (hs.ahead_lt hc hd).trans_le h.next_le
    · exact (hk.tickets_lt hd).trans_le h.next_le
  ahead_past {c ticket ahead d ahead'} hc hd hgate := by
    have hpast : s.place d ≠ .gate ahead' ∧ d < s.next := by
      rcases h.lane_of hc with hc | ⟨-, -, rfl, -⟩
      · exact ⟨hs.ahead_past hc hd, hs.ahead_lt hc hd⟩
      · exact ⟨hs.tickets_past hd, hk.tickets_lt hd⟩
    rcases h.gate_of hgate with hgate | ⟨rfl, -⟩
    · exact hpast.1 hgate
    · exact absurd hpast.2 (lt_irrefl _)
  ticket_lt hc := by
    rcases h.lane_of hc with hc | ⟨-, hlt, -⟩
    · exact (hs.ticket_lt hc).trans_le h.next_le
    · exact hlt
  lane_sees hc hd hne := by
    rcases h.lane_of hc with hc' | ⟨-, -, rfl, ahead, hc', -⟩ <;>
      rcases h.lane_of hd with hd' | ⟨-, -, rfl, ahead', hd', -⟩
    · exact hs.lane_sees hc' hd' hne
    · exact .inl (hk.mem_tickets (by simp [hc', Place.HoldsTicket]))
    · exact .inr (hk.mem_tickets (by simp [hd', Place.HoldsTicket]))
    · have hstay := h.place_of_ne (by simp [hc, hc']) hne.symm
      simp [hd, hd'] at hstay
  lane_order hc hd hmem := by
    rcases h.lane_of hc with hc | ⟨rfl, -, rfl, ahead, hc, -⟩ <;>
      rcases h.lane_of hd with hd | ⟨rfl, -, rfl, ahead', hd, -⟩
    · exact hs.lane_order hc hd hmem
    · exact absurd hd (hs.ahead_past hc hmem)
    · exact hs.ticket_lt hd
    · exact absurd hd (hs.tickets_past hmem)
  lane_sees_inside hc hd := by
    rcases h.lane_of hc with hc | ⟨-, -, rfl, ahead, hc, -⟩ <;>
      rcases h.inside_of hd with hd | ⟨ticket', ahead', hd, hahead⟩
    · exact hs.lane_sees_inside hc hd
    · refine (hs.lane_sees hc hd (by grind)).resolve_left fun hmem => ?_
      exact hahead _ hmem (by simp [hc, Place.HoldsTicket])
    · exact hk.mem_tickets (by simp [hd, Place.HoldsTicket])
    · exact hk.mem_tickets (by simp [hd, Place.HoldsTicket])
  inside_unique hc hd := by
    rcases h.inside_of hc with hc' | ⟨ticket, ahead, hc', hahead⟩ <;>
      rcases h.inside_of hd with hd' | ⟨ticket', ahead', hd', hahead'⟩
    · exact hs.inside_unique hc' hd'
    · have hmem := hs.lane_sees_inside hd' hc'
      exact absurd (by simp [hc', Place.HoldsTicket]) (hahead' _ hmem)
    · have hmem := hs.lane_sees_inside hc' hd'
      exact absurd (by simp [hd', Place.HoldsTicket]) (hahead _ hmem)
    · by_contra hne
      have hstay := h.place_of_ne (by simp [hd, hd']) hne
      simp [hc, hc'] at hstay

structure Inv (s : State) : Prop where
  known : Known s
  atGate : AtGate s
  inLane : InLane s

theorem Inv.step (hs : Inv s) (h : Step s s') : Inv s' where
  known := hs.known.step h
  atGate := hs.atGate.step hs.known h
  inLane := hs.inLane.step hs.known h

/-- Nobody has called yet. -/
def init : State := ⟨0, fun _ => .away, ∅, ∅, ∅⟩

theorem inv_init : Inv init := by
  constructor <;> constructor <;> simp [init, Place.HoldsPlain, Place.HoldsGate,
    Place.HoldsTicket]

/-- While a call is inside, no earlier or later plain call may run. -/
theorem Inv.plain_waits {c d : ℕ} {ahead : Finset ℕ} (hs : Inv s)
    (hc : s.place c = .inside) (hd : s.place d = .plain ahead) : c ∈ ahead := by
  have hlt : c < d :=
    hs.atGate.past_gate (by simp [hc, Place.HoldsTicket])
      (by simp [hd, Place.HoldsPlain])
  exact hs.atGate.plain_sees hd (by simp [hc, Place.HoldsGate]) hlt

/-- `Waits s c d`: call `c` cannot go on before `d` does. -/
inductive Waits (s : State) : ℕ → ℕ → Prop
  | plain {c d ahead} : s.place c = .plain ahead → d ∈ ahead →
      (s.place d).HoldsGate → Waits s c d
  | gate {c d ahead} : s.place c = .gate ahead → d ∈ ahead →
      (s.place d).HoldsPlain → Waits s c d
  | lane {c d ticket ahead} : s.place c = .lane ticket ahead → d ∈ ahead →
      (s.place d).HoldsTicket → Waits s c d

theorem Waits.place_ne_away {c d : ℕ} (h : Waits s c d) :
    s.place d ≠ .away ∧ s.place c ≠ .away := by
  cases h <;> grind

/-- Every wait is for a call of smaller rank. -/
theorem Inv.rank_lt {c d : ℕ} (hs : Inv s) (h : Waits s c d) :
    (s.place d).rank d < (s.place c).rank c := by
  cases h with
  | @plain ahead hc hmem hd =>
      have hlt := hs.atGate.plain_lt hc hmem
      cases hplace : s.place d <;>
        simp_all [Place.HoldsGate, Place.rank, Prod.Lex.toLex_lt_toLex]
  | @gate ahead hc hmem hd =>
      have hlt := hs.atGate.gate_lt hc hmem
      cases hplace : s.place d <;>
        simp_all [Place.HoldsPlain, Place.rank, Prod.Lex.toLex_lt_toLex]
  | @lane ticket ahead hc hmem hd =>
      cases hplace : s.place d with
      | lane ticket' ahead' =>
          have hlt := hs.inLane.lane_order hc hplace hmem
          simp [hc, Place.rank, Prod.Lex.toLex_lt_toLex, hlt]
      | inside => simp [hc, Place.rank, Prod.Lex.toLex_lt_toLex]
      | _ => simp [hplace, Place.HoldsTicket] at hd

end Turnstile
