/-
The newest element of a list under a total preorder: what a descending order with a
search returns, and what is lost when only a part of the list is searched.
-/
import Mathlib.Data.List.Sort

namespace ReportsFramework

variable {α β : Type*} {r : α → α → Prop} {p q : α → Prop} {l l' : List α} {o o' : Option α}

/-- The newest element of a list with a property; no element when none has it. -/
def IsNewest (r : α → α → Prop) (p : α → Prop) (l : List α) : Option α → Prop
  | none => ∀ a ∈ l, ¬ p a
  | some a => a ∈ l ∧ p a ∧ ∀ b ∈ l, p b → r b a

theorem IsNewest.isSome (h : IsNewest r p l o) {a : α} (ha : a ∈ l) (hp : p a) : o.isSome := by
  cases o with
  | none => exact absurd hp (h a ha)
  | some b => rfl

/-- Two newest elements come at or before each other. -/
theorem IsNewest.rel {a b : α} (ha : IsNewest r p l (some a)) (hb : IsNewest r p l (some b)) :
    r a b :=
  hb.2.2 a ha.1 ha.2.1

theorem IsNewest.of_rel [IsTrans α r] {a b : α} (ha : IsNewest r p l (some a)) (hb : b ∈ l)
    (hp : p b) (hab : r a b) : IsNewest r p l (some b) := by
  refine ⟨hb, hp, ?_⟩
  intro c hc hpc
  exact IsTrans.trans c a b (ha.2.2 c hc hpc) hab

theorem isNewest_map {r' : β → β → Prop} {p' : β → Prop} {f : α → β}
    (hr : ∀ a b, r' (f a) (f b) ↔ r a b) (hp : ∀ a, p' (f a) ↔ p a) {o : Option β} :
    IsNewest r' p' (l.map f) o ↔ ∃ o', o = o'.map f ∧ IsNewest r p l o' := by
  constructor
  · intro h
    cases o with
    | none =>
      refine ⟨none, rfl, ?_⟩
      intro a ha hpa
      exact h (f a) (List.mem_map_of_mem ha) ((hp a).mpr hpa)
    | some b =>
      obtain ⟨hmem, hpb, hmax⟩ := h
      rcases List.mem_map.mp hmem with ⟨a, ha, rfl⟩
      refine ⟨some a, rfl, ha, (hp a).mp hpb, ?_⟩
      intro c hc hpc
      exact (hr c a).mp (hmax (f c) (List.mem_map_of_mem hc) ((hp c).mpr hpc))
  · rintro ⟨o', rfl, h⟩
    cases o' with
    | none =>
      intro b hb hpb
      rcases List.mem_map.mp hb with ⟨a, ha, rfl⟩
      exact h a ha ((hp a).mp hpb)
    | some a =>
      obtain ⟨hmem, hpa, hmax⟩ := h
      refine ⟨List.mem_map_of_mem hmem, (hp a).mpr hpa, ?_⟩
      intro b hb hpb
      rcases List.mem_map.mp hb with ⟨c, hc, rfl⟩
      exact (hr c a).mpr (hmax c hc ((hp c).mp hpb))

/-- Where an element has the property, one of them is newest. -/
theorem exists_isNewest [Std.Total r] [IsTrans α r] {a : α} (ha : a ∈ l) (hp : p a) :
    ∃ b, IsNewest r p l (some b) := by
  induction l generalizing a with
  | nil => simp at ha
  | cons c l ih =>
    by_cases hex : ∃ b ∈ l, p b
    · rcases hex with ⟨b, hb, hpb⟩
      rcases ih hb hpb with ⟨m, hm, hpm, hmax⟩
      by_cases hc : p c ∧ r m c
      · refine ⟨c, List.mem_cons_self, hc.1, ?_⟩
        intro d hd hpd
        rcases List.mem_cons.mp hd with rfl | hd
        · exact (Std.Total.total (r := r) d d).elim id id
        · exact IsTrans.trans d m c (hmax d hd hpd) hc.2
      · refine ⟨m, List.mem_cons_of_mem c hm, hpm, ?_⟩
        intro d hd hpd
        rcases List.mem_cons.mp hd with rfl | hd
        · exact (Std.Total.total (r := r) d m).resolve_right fun hmd => hc ⟨hpd, hmd⟩
        · exact hmax d hd hpd
    · have hnone : ∀ d ∈ c :: l, p d → d = c := by
        intro d hd hpd
        rcases List.mem_cons.mp hd with rfl | hd
        · rfl
        · exact absurd ⟨d, hd, hpd⟩ hex
      obtain rfl := hnone a ha hp
      refine ⟨a, List.mem_cons_self, hp, ?_⟩
      intro d hd hpd
      obtain rfl := hnone d hd hpd
      exact (Std.Total.total (r := r) d d).elim id id

/-- What is newest in a part is newest in the whole exactly when the part has a newest
element of the whole. -/
theorem IsNewest.iff_of_subset [Std.Total r] [IsTrans α r] (h : IsNewest r q l' o)
    (hsub : l' ⊆ l) (hqp : ∀ a, q a → p a) :
    IsNewest r p l o ↔
      ((∃ a, IsNewest r p l (some a)) → ∃ a, IsNewest r p l (some a) ∧ a ∈ l' ∧ q a) := by
  constructor
  · rintro ho ⟨a, ha⟩
    cases o with
    | none => exact absurd ha.2.1 (ho a ha.1)
    | some b => exact ⟨b, ho, h.1, h.2.1⟩
  · intro hpart
    cases o with
    | some b =>
      obtain ⟨hmem, hqb, hmax⟩ := h
      obtain ⟨a, ha, hmema, hqa⟩ := hpart (exists_isNewest (hsub hmem) (hqp b hqb))
      exact ha.of_rel (hsub hmem) (hqp b hqb) (hmax a hmema hqa)
    | none =>
      intro c hc hpc
      obtain ⟨a, -, hmema, hqa⟩ := hpart (exists_isNewest hc hpc)
      exact h a hmema hqa

theorem IsNewest.congr (h : IsNewest r p l o) (hl : ∀ a, a ∈ l' ↔ a ∈ l)
    (hq : ∀ a ∈ l, q a ↔ p a) : IsNewest r q l' o := by
  cases o with
  | none =>
    intro a ha hqa
    have hmem := (hl a).mp ha
    exact h a hmem ((hq a hmem).mp hqa)
  | some a =>
    refine ⟨(hl a).mpr h.1, (hq a h.1).mpr h.2.1, ?_⟩
    intro b hb hqb
    have hmem := (hl b).mp hb
    exact h.2.2 b hmem ((hq b hmem).mp hqb)

/-- The newest of two lists is the newest of what is newest in each. -/
theorem IsNewest.append [IsTrans α r] {o₁ o₂ : Option α} (h₁ : IsNewest r p l o₁)
    (h₂ : IsNewest r p l' o₂) (h : IsNewest r (fun _ => True) (o₁.toList ++ o₂.toList) o) :
    IsNewest r p (l ++ l') o := by
  cases o with
  | none =>
    have hnil : o₁.toList ++ o₂.toList = [] :=
      List.eq_nil_iff_forall_not_mem.mpr fun a ha => h a ha trivial
    rw [List.append_eq_nil_iff, Option.toList_eq_nil_iff, Option.toList_eq_nil_iff] at hnil
    obtain ⟨rfl, rfl⟩ := hnil
    intro a ha
    exact (List.mem_append.mp ha).elim (h₁ a) (h₂ a)
  | some b =>
    have hb : b ∈ l ++ l' ∧ p b := by
      rcases List.mem_append.mp h.1 with hb | hb
      · obtain rfl := Option.mem_toList.mp hb
        exact ⟨List.mem_append_left l' h₁.1, h₁.2.1⟩
      · obtain rfl := Option.mem_toList.mp hb
        exact ⟨List.mem_append_right l h₂.1, h₂.2.1⟩
    refine ⟨hb.1, hb.2, ?_⟩
    intro a ha hpa
    rcases List.mem_append.mp ha with ha | ha
    · obtain ⟨m, rfl⟩ := Option.isSome_iff_exists.mp (h₁.isSome ha hpa)
      exact IsTrans.trans a m b (h₁.2.2 a ha hpa) (h.2.2 m (by simp) trivial)
    · obtain ⟨m, rfl⟩ := Option.isSome_iff_exists.mp (h₂.isSome ha hpa)
      exact IsTrans.trans a m b (h₂.2.2 a ha hpa) (h.2.2 m (by simp) trivial)

section Order

variable (r) [DecidableRel r]

/-- The list with the latest elements first; equal ones keep their places. -/
def latestFirst (l : List α) : List α := l.insertionSort fun a b => r b a

@[simp] theorem mem_latestFirst {a : α} : a ∈ latestFirst r l ↔ a ∈ l :=
  List.mem_insertionSort _

theorem latestFirst_map {r' : β → β → Prop} [DecidableRel r'] {f : α → β}
    (hr : ∀ a b, r' (f a) (f b) ↔ r a b) (l : List α) :
    latestFirst r' (l.map f) = (latestFirst r l).map f :=
  (List.map_insertionSort _ _ f l fun a _ b _ => (hr b a).symm).symm

variable [Std.Total r] [IsTrans α r]

theorem pairwise_latestFirst (l : List α) : (latestFirst r l).Pairwise fun a b => r b a := by
  have : Std.Total fun a b => r b a := ⟨fun a b => Std.Total.total b a⟩
  have : IsTrans α fun a b => r b a := ⟨fun a b c hab hbc => IsTrans.trans c b a hbc hab⟩
  exact List.pairwise_insertionSort _ l

/-- A search from the latest element on finds a newest one. -/
theorem isNewest_find?_latestFirst (p : α → Bool) (l : List α) :
    IsNewest r (p · = true) l ((latestFirst r l).find? p) := by
  cases hfind : (latestFirst r l).find? p with
  | none =>
    intro a ha hpa
    have := List.find?_eq_none.mp hfind a ((mem_latestFirst r).mpr ha)
    exact this hpa
  | some a =>
    rcases List.find?_eq_some_iff_append.mp hfind with ⟨hpa, before, after, heq, hbefore⟩
    refine ⟨(mem_latestFirst r).mp (heq ▸ by simp), hpa, ?_⟩
    intro b hb hpb
    have hb := (mem_latestFirst r).mpr hb
    have hpair := pairwise_latestFirst r l
    rw [heq] at hb hpair
    rcases List.mem_append.mp hb with hb | hb
    · have := hbefore b hb
      simp [hpb] at this
    · rcases List.mem_cons.mp hb with rfl | hb
      · exact (Std.Total.total (r := r) b b).elim id id
      · exact (List.pairwise_cons.mp (List.pairwise_append.mp hpair).2.1).1 b hb

/-- The first element of an ordered selection is a newest one. -/
theorem isNewest_head?_latestFirst (p : α → Bool) (l : List α) :
    IsNewest r (p · = true) l (latestFirst r (l.filter p)).head? := by
  have hfind := isNewest_find?_latestFirst r (fun _ => true) (l.filter p)
  have hhead : (latestFirst r (l.filter p)).find? (fun _ => true) =
      (latestFirst r (l.filter p)).head? := by
    cases latestFirst r (l.filter p) <;> rfl
  rw [hhead] at hfind
  cases ho : (latestFirst r (l.filter p)).head? with
  | none =>
    rw [ho] at hfind
    intro a ha hpa
    exact hfind a (List.mem_filter.mpr ⟨ha, hpa⟩) rfl
  | some a =>
    rw [ho] at hfind
    obtain ⟨hmem, -, hmax⟩ := hfind
    refine ⟨(List.mem_filter.mp hmem).1, (List.mem_filter.mp hmem).2, ?_⟩
    intro b hb hpb
    exact hmax b (List.mem_filter.mpr ⟨hb, hpb⟩) rfl

end Order

end ReportsFramework
