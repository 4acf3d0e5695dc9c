/-
A JSON text that was written is read back, but for what `undefined` loses.
-/
import Mathlib.Data.List.Forall2
import Mathlib.Data.List.TakeDrop
import ReportsFramework.JsonText

namespace Js

namespace Json

section ScanStrings

/-- The piece that the text of a character is read as. -/
def pieceOf (c : Char) : Piece :=
  if c.toNat < 32 ∧ c.toNat ∉ [8, 9, 10, 12, 13] then .unit c.toNat else .char c

theorem escapedUnit_control : ∀ n < 32,
    escapedUnit '0' '0' (hexDigit (n / 16)) (hexDigit (n % 16)) = some n := by decide

theorem scanPieces_escaped {letter c : Char} (hu : letter ≠ 'u')
    (hletter : escapedChar letter = some c) (rest : List Char) :
    scanPieces ('\\' :: letter :: rest) =
      (scanPieces rest).map fun res => (.char c :: res.1, res.2) := by
  rw [scanPieces, hletter]
  · cases scanPieces rest <;> rfl
  · intro _ _ _ _ _ hrest
    exact absurd hrest hu

theorem scanPieces_plain {c : Char} (hquote : c ≠ '"') (hslash : c ≠ '\\') (hplain : 32 ≤ c.toNat)
    (rest : List Char) :
    scanPieces (c :: rest) = (scanPieces rest).map fun res => (.char c :: res.1, res.2) := by
  rw [scanPieces]
  · rw [if_neg (by simp [hslash]; omega)]
    cases scanPieces rest <;> rfl
  all_goals intros; simp_all

/-- The text of a character is read as this one piece. -/
theorem scanPieces_quoteChar (c : Char) (rest : List Char) :
    scanPieces (quoteChar c ++ rest) =
      (scanPieces rest).map fun res => (pieceOf c :: res.1, res.2) := by
  have hof : ∀ {n : ℕ}, c.toNat = n → c = Char.ofNat n := by
    intro n hn
    rw [← hn, Char.ofNat_toNat]
  unfold quoteChar
  split_ifs with hquote hslash h8 h9 h10 h12 h13 hcontrol
  · subst hquote
    exact scanPieces_escaped (by decide) rfl rest
  · subst hslash
    exact scanPieces_escaped (by decide) rfl rest
  · rw [hof h8]
    exact scanPieces_escaped (by decide) rfl rest
  · rw [hof h9]
    exact scanPieces_escaped (by decide) rfl rest
  · rw [hof h10]
    exact scanPieces_escaped (by decide) rfl rest
  · rw [hof h12]
    exact scanPieces_escaped (by decide) rfl rest
  · rw [hof h13]
    exact scanPieces_escaped (by decide) rfl rest
  · have hpiece : pieceOf c = .unit c.toNat := by
      rw [pieceOf, if_pos ⟨hcontrol, by simp [h8, h9, h10, h12, h13]⟩]
    rw [hpiece]
    simp only [List.cons_append, List.nil_append]
    rw [scanPieces, escapedUnit_control _ hcontrol]
    cases scanPieces rest <;> rfl
  · have hpiece : pieceOf c = .char c := by
      rw [pieceOf, if_neg fun h => hcontrol h.1]
    rw [hpiece]
    exact scanPieces_plain hquote hslash (by omega) rest

theorem decodePieces_pieceOf (cs : List Char) : decodePieces none (cs.map pieceOf) = cs := by
  induction cs with
  | nil => rfl
  | cons c rest ih =>
    rw [List.map_cons, pieceOf]
    split_ifs with hcontrol
    · have hhigh : isHighSurrogate c.toNat = false := by
        simp [isHighSurrogate]
        omega
      have hlow : isLowSurrogate c.toNat = false := by
        simp [isLowSurrogate]
        omega
      rw [decodePieces, hhigh, hlow, ih, if_neg (by simp), if_neg (by simp), Char.ofNat_toNat]
    · rw [decodePieces, ih]
      rfl

theorem scanString_quote (s : String) (rest : List Char) :
    scanString (s.toList.flatMap quoteChar ++ '"' :: rest) = some (s, rest) := by
  have hpieces : ∀ cs : List Char, scanPieces (cs.flatMap quoteChar ++ '"' :: rest) =
      some (cs.map pieceOf, rest) := by
    intro cs
    induction cs with
    | nil => simp [scanPieces]
    | cons c cs ih =>
      rw [List.flatMap_cons, List.append_assoc, scanPieces_quoteChar, ih]
      rfl
  rw [scanString, hpieces]
  simp [decodePieces_pieceOf]

end ScanStrings

section ScanNumbers

/-- What may stand behind a value in a JSON text. -/
def Ends (rest : List Char) : Prop :=
  ∀ c ∈ rest.head?, c = ',' ∨ c = ']' ∨ c = '\x7d'

theorem span_isDigit_append {rest : List Char} (hrest : Ends rest) (cs : List Char) :
    (cs ++ rest).span Char.isDigit =
      ((cs.span Char.isDigit).1, (cs.span Char.isDigit).2 ++ rest) := by
  simp only [List.span_eq_takeWhile_dropWhile]
  induction cs with
  | nil =>
    cases rest with
    | nil => rfl
    | cons c rest =>
      have hc : c.isDigit = false := by
        rcases hrest c rfl with rfl | rfl | rfl <;> rfl
      simp [hc]
  | cons c cs ih =>
    simp only [Prod.mk.injEq] at ih
    rw [List.cons_append, List.takeWhile_cons, List.dropWhile_cons, List.takeWhile_cons,
      List.dropWhile_cons]
    cases c.isDigit with
    | true => simp [ih.1, ih.2]
    | false => rfl

theorem scanSign_append {isPlusAllowed : Bool} {cs : List Char} (hcs : cs ≠ [])
    (rest : List Char) :
    scanSign isPlusAllowed (cs ++ rest) =
      ((scanSign isPlusAllowed cs).1, (scanSign isPlusAllowed cs).2 ++ rest) := by
  unfold scanSign
  cases cs with
  | nil => exact absurd rfl hcs
  | cons c cs =>
    by_cases hminus : c = '-'
    · subst hminus
      rfl
    · by_cases hplus : c = '+'
      · subst hplus
        cases isPlusAllowed <;> rfl
      · simp [hminus, hplus]

theorem scanInt_append {cs digits left rest : List Char} (hrest : Ends rest)
    (h : scanInt cs = some (digits, left)) :
    scanInt (cs ++ rest) = some (digits, left ++ rest) := by
  unfold scanInt at *
  cases cs with
  | nil => simp at h
  | cons c cs =>
    by_cases hzero : c = '0'
    · subst hzero
      simp_all
    · simp only [List.cons_append] at h ⊢
      split_ifs at h ⊢ with hc
      rw [← List.cons_append, span_isDigit_append hrest]
      simp_all

theorem scanFrac_append {cs digits left rest : List Char} (hrest : Ends rest)
    (h : scanFrac cs = some (digits, left)) :
    scanFrac (cs ++ rest) = some (digits, left ++ rest) := by
  unfold scanFrac at *
  cases cs with
  | nil =>
    cases rest with
    | nil => simp_all
    | cons c rest =>
      rcases hrest c rfl with rfl | rfl | rfl <;> simp_all
  | cons c cs =>
    by_cases hpoint : c = '.'
    · subst hpoint
      simp only [List.cons_append, span_isDigit_append hrest] at h ⊢
      split_ifs at h ⊢ with hdigits
      simp_all
    · simp [hpoint] at h
      simp [hpoint, ← h.1, ← h.2]

theorem scanExponent_append {cs left rest : List Char} {exponent : ℤ} (hrest : Ends rest)
    (h : scanExponent cs = some (exponent, left)) :
    scanExponent (cs ++ rest) = some (exponent, left ++ rest) := by
  unfold scanExponent at *
  cases cs with
  | nil =>
    cases rest with
    | nil => simp_all
    | cons c rest =>
      rcases hrest c rfl with rfl | rfl | rfl <;> simp_all [isExponentMark]
  | cons c cs =>
    simp only [List.cons_append] at h ⊢
    cases hmark : isExponentMark c with
    | false =>
      simp [hmark] at h
      simp [← h.1, ← h.2]
    | true =>
      cases cs with
      | nil => simp [scanSign, hmark] at h
      | cons d cs =>
        rw [if_pos hmark] at h
        rw [if_pos rfl, scanSign_append (List.cons_ne_nil d cs)]
        simp only [span_isDigit_append hrest] at h ⊢
        split_ifs at h ⊢ with hdigits
        all_goals simp_all

/-- A number that is read to some place is read to there before whatever may stand behind. -/
theorem scanNumber_append {cs left rest : List Char} {x : ℚ} (hrest : Ends rest)
    (h : scanNumber cs = some (x, left)) :
    scanNumber (cs ++ rest) = some (x, left ++ rest) := by
  have hcs : cs ≠ [] := by
    rintro rfl
    simp [scanNumber, scanSign, scanInt] at h
  simp only [scanNumber, Option.bind_eq_bind, Option.bind_eq_some_iff, Prod.exists,
    Option.pure_def, Option.some.injEq, Prod.mk.injEq] at h
  obtain ⟨int, afterInt, hint, frac, afterFrac, hfrac, exponent, afterExponent, hexponent,
    hx, rfl⟩ := h
  simp [scanNumber, scanSign_append hcs, scanInt_append hrest hint, scanFrac_append hrest hfrac,
    scanExponent_append hrest hexponent, hx]

theorem head_of_scanNumber {cs left : List Char} {x : ℚ} (h : scanNumber cs = some (x, left)) :
    ∃ c cs', cs = c :: cs' ∧ (c = '-' ∨ c.isDigit) := by
  cases cs with
  | nil => simp [scanNumber, scanSign, scanInt] at h
  | cons c cs =>
    refine ⟨c, cs, rfl, ?_⟩
    by_contra hc
    push Not at hc
    have hint : scanInt (scanSign false (c :: cs)).2 = none := by
      by_cases hplus : c = '+'
      · subst hplus
        rfl
      · have hzero : c ≠ '0' := by
          rintro rfl
          simp at hc
        simp [scanSign, scanInt, hc.1, hplus, hc.2]
    simp [scanNumber, hint] at h

/-- A number starts like no other value and not with whitespace. -/
theorem ne_of_number_head {c : Char} (hc : c = '-' ∨ c.isDigit) :
    ∀ other ∈ [' ', '\t', '\n', '\r', 'n', 't', 'f', '"', '[', ']', '\x7b'], c ≠ other := by
  rintro other hother rfl
  rcases hc with rfl | hc
  · simp at hother
  · have hdigits : ∀ c ∈ [' ', '\t', '\n', '\r', 'n', 't', 'f', '"', '[', ']', '\x7b'],
        c.isDigit = false := by simp
    simp [hdigits c hother] at hc

end ScanNumbers

section ScanTexts

theorem ends_cons {c : Char} (hc : c = ',' ∨ c = ']' ∨ c = '\x7d') (rest : List Char) :
    Ends (c :: rest) := by
  intro c' hc'
  rw [← Option.some.inj hc']
  exact hc

theorem skipWhitespace_cons {c : Char} (hc : isWhitespace c = false) (rest : List Char) :
    skipWhitespace (c :: rest) = c :: rest :=
  List.dropWhile_cons_of_neg (by simp [hc])

/-- `text` is read as `val` wherever it ends. -/
def Reads (scan : List Char → Option (Val × List Char)) (text : List Char) (val : Val) : Prop :=
  ∀ rest, Ends rest → scan (text ++ rest) = some (val, rest)

theorem joined_singleton (text : List Char) : joined [text] = text := by
  simp [joined, List.intercalate]

theorem joined_append (text next : List Char) (texts : List (List Char)) (rest : List Char) :
    joined (text :: next :: texts) ++ rest = text ++ ',' :: (joined (next :: texts) ++ rest) := by
  simp [joined, List.intercalate, List.intersperse]

theorem head_joined (c : Char) (cs : List Char) (texts : List (List Char)) (rest : List Char) :
    ∃ cs', joined ((c :: cs) :: texts) ++ rest = c :: cs' := by
  cases texts with
  | nil => exact ⟨_, by rw [joined_singleton, List.cons_append]⟩
  | cons next texts => exact ⟨_, by rw [joined_append, List.cons_append]⟩

theorem scanItems_joined {scan : List Char → Option (Val × List Char)}
    {texts : List (List Char)} {vals : List Val} (h : List.Forall₂ (Reads scan) texts vals)
    (hne : texts ≠ []) {n : ℕ} (hn : texts.length ≤ n) (rest : List Char) :
    scanItems scan n (joined texts ++ ']' :: rest) = some (vals, rest) := by
  induction h generalizing n with
  | nil => exact absurd rfl hne
  | @cons text val texts vals hread hrest ih =>
    cases n with
    | zero => simp at hn
    | succ n =>
      cases texts with
      | nil =>
        cases hrest
        rw [joined_singleton, scanItems, hread _ (ends_cons (by simp) rest)]
        simp [skipWhitespace_cons, isWhitespace]
      | cons next texts =>
        rw [joined_append, scanItems, hread _ (ends_cons (by simp) _)]
        have hitems := ih (List.cons_ne_nil next texts) (Nat.le_of_succ_le_succ hn)
        simp [skipWhitespace_cons, isWhitespace, hitems]

/-- The text of a member of an object. -/
def memberText (key : String) (text : List Char) : List Char := quote key ++ ':' :: text

theorem memberText_append (key : String) (text rest : List Char) :
    memberText key text ++ rest =
      '"' :: (key.toList.flatMap quoteChar ++ '"' :: ':' :: (text ++ rest)) := by
  simp [memberText, quote]

theorem scanMembers_comma {scan : List Char → Option (Val × List Char)} {key : String}
    {text : List Char} {val : Val} (hread : Reads scan text val) {o : Obj} (hkey : key ∉ o.keys)
    (n : ℕ) (rest : List Char) :
    scanMembers scan (n + 1) o (memberText key text ++ ',' :: rest) =
      scanMembers scan n (o ++ [(key, val)]) rest := by
  have hset : o.set key val = o ++ [(key, val)] := if_neg hkey
  rw [memberText_append, scanMembers, skipWhitespace_cons rfl]
  simp [scanString_quote, skipWhitespace_cons, isWhitespace, hread _ (ends_cons (.inl rfl) rest),
    hset]

theorem scanMembers_brace {scan : List Char → Option (Val × List Char)} {key : String}
    {text : List Char} {val : Val} (hread : Reads scan text val) {o : Obj} (hkey : key ∉ o.keys)
    (n : ℕ) (rest : List Char) :
    scanMembers scan (n + 1) o (memberText key text ++ '\x7d' :: rest) =
      some (o ++ [(key, val)], rest) := by
  have hset : o.set key val = o ++ [(key, val)] := if_neg hkey
  rw [memberText_append, scanMembers, skipWhitespace_cons rfl]
  simp [scanString_quote, skipWhitespace_cons, isWhitespace,
    hread _ (ends_cons (.inr (.inr rfl)) rest), hset]

theorem scanMembers_joined {scan : List Char → Option (Val × List Char)}
    {members : List (String × List Char)} {entries : List (String × Val)}
    (h : List.Forall₂ (fun member entry => member.1 = entry.1 ∧ Reads scan member.2 entry.2)
      members entries)
    (hne : members ≠ []) {n : ℕ} (hn : members.length ≤ n) {o : Obj}
    (hkeys : (o.keys ++ entries.map Prod.fst).Nodup) (rest : List Char) :
    scanMembers scan n o (joined (members.map fun member => memberText member.1 member.2) ++
      '\x7d' :: rest) = some (o ++ entries, rest) := by
  induction h generalizing n o with
  | nil => exact absurd rfl hne
  | @cons member entry members entries hread hrest ih =>
    obtain ⟨key, text⟩ := member
    obtain ⟨_, val⟩ := entry
    obtain ⟨rfl, hread⟩ := hread
    have hkey : key ∉ o.keys := by
      intro hkey
      exact (List.nodup_append.mp hkeys).2.2 key hkey key (by simp) rfl
    cases n with
    | zero => simp at hn
    | succ n =>
      cases members with
      | nil =>
        cases hrest
        rw [List.map_singleton, joined_singleton]
        exact scanMembers_brace hread hkey n rest
      | cons next members =>
        rw [List.map_cons, List.map_cons, joined_append, scanMembers_comma hread hkey]
        have hmembers := @ih (List.cons_ne_nil next members) n (Nat.le_of_succ_le_succ hn)
          (o ++ [(key, val)]) (by simpa [Obj.keys] using hkeys)
        simpa using hmembers

theorem length_le_joined (texts : List (List Char)) :
    texts.length ≤ (joined texts).length + 1 ∧
      ∀ text ∈ texts, text.length ≤ (joined texts).length := by
  induction texts with
  | nil => simp
  | cons text texts ih =>
    cases texts with
    | nil => simp [joined_singleton]
    | cons next texts =>
      have hlength : (joined (text :: next :: texts)).length =
          text.length + 1 + (joined (next :: texts)).length := by
        have happend := congrArg List.length (joined_append text next texts [])
        simp only [List.append_nil, List.length_append, List.length_cons] at happend
        omega
      rw [hlength]
      constructor
      · have hrest := ih.1
        simp only [List.length_cons] at hrest ⊢
        omega
      · intro text' htext
        rcases List.mem_cons.mp htext with rfl | htext
        · omega
        · have hrest := ih.2 text' htext
          omega

end ScanTexts

section Parse

variable (numbers : NumberText)

theorem memberTexts_eq_memberText (entries : List (String × Val)) :
    memberTexts numbers entries =
      ((entries.filter fun entry => !isUndefined entry.2).map fun entry =>
        (entry.1, stringify numbers entry.2)).map fun member => memberText member.1 member.2 := by
  rw [memberTexts_eq_map, List.map_map]
  rfl

variable {numbers}

theorem head_stringify {val : Val} (h : Valid numbers.isNumber val) :
    ∃ c cs, stringify numbers val = c :: cs ∧ isWhitespace c = false ∧ c ≠ ']' := by
  cases h with
  | undefined => exact ⟨_, _, rfl, rfl, by decide⟩
  | null => exact ⟨_, _, rfl, rfl, by decide⟩
  | bool b => cases b <;> exact ⟨_, _, rfl, rfl, by decide⟩
  | num x hx =>
    obtain ⟨c, cs, htext, hc⟩ := head_of_scanNumber (numbers.scan_text x hx)
    have hother := ne_of_number_head hc
    refine ⟨c, cs, by rw [stringify, htext], ?_, hother _ (by simp)⟩
    simp [isWhitespace, hother ' ', hother '\t', hother '\n', hother '\r']
  | str s => exact ⟨_, _, rfl, rfl, by decide⟩
  | arr items h => exact ⟨_, _, rfl, rfl, by decide⟩
  | obj entries hkeys h => exact ⟨_, _, rfl, rfl, by decide⟩

theorem scanValue_number {x : ℚ} (hx : numbers.isNumber x) (fuel : ℕ) {rest : List Char}
    (hrest : Ends rest) : scanValue (fuel + 1) (numbers.text x ++ rest) = some (.num x, rest) := by
  have hscan := scanNumber_append hrest (numbers.scan_text x hx)
  obtain ⟨c, cs, htext, hc⟩ := head_of_scanNumber (numbers.scan_text x hx)
  have hother := ne_of_number_head hc
  have hspace : isWhitespace c = false := by
    simp [isWhitespace, hother ' ', hother '\t', hother '\n', hother '\r']
  rw [htext, List.cons_append] at hscan ⊢
  rw [scanValue, skipWhitespace_cons hspace]
  -- no other kind of value starts like a number
  split
  case h_7 => rw [hscan]; rfl
  all_goals
    rename_i heq
    exact absurd (List.cons.inj heq).1 (hother _ (by simp))

theorem scanValue_array {items : List Val} {fuel : ℕ}
    (hitems : ∀ item ∈ items, Valid numbers.isNumber item) (hfuel : items.length ≤ fuel)
    (hread : ∀ item ∈ items, Reads (scanValue fuel) (stringify numbers item) (clean item))
    (rest : List Char) :
    scanValue (fuel + 1) (stringify numbers (.arr items) ++ rest) =
      some (clean (.arr items), rest) := by
  have htext : stringify numbers (.arr items) ++ rest =
      '[' :: (joined (items.map (stringify numbers)) ++ ']' :: rest) := by
    rw [stringify, itemTexts_eq_map]
    simp
  rw [htext, clean, cleanItems_eq_map]
  cases items with
  | nil => rfl
  | cons item items =>
    obtain ⟨c, cs, hitem, hspace, hbracket⟩ := head_stringify (hitems item (by simp))
    obtain ⟨cs', hhead⟩ := head_joined c cs (items.map (stringify numbers)) (']' :: rest)
    rw [← hitem, ← List.map_cons] at hhead
    have hforall : List.Forall₂ (Reads (scanValue fuel)) ((item :: items).map (stringify numbers))
        ((item :: items).map clean) := by
      rw [List.forall₂_map_left_iff, List.forall₂_map_right_iff, List.forall₂_same]
      exact hread
    have hscan := scanItems_joined hforall (by simp) (by simpa using hfuel) rest
    rw [scanValue, skipWhitespace_cons rfl]
    simp only
    rw [hhead] at hscan ⊢
    rw [skipWhitespace_cons hspace]
    split
    · rename_i heq
      exact absurd (List.cons.inj heq).1 hbracket
    · rw [hscan]
      rfl

theorem scanValue_object {entries : List (String × Val)} {fuel : ℕ}
    (hkeys : (entries.map Prod.fst).Nodup) (hfuel : (memberTexts numbers entries).length ≤ fuel)
    (hread : ∀ entry ∈ entries, isUndefined entry.2 = false →
      Reads (scanValue fuel) (stringify numbers entry.2) (clean entry.2))
    (rest : List Char) :
    scanValue (fuel + 1) (stringify numbers (.obj entries) ++ rest) =
      some (clean (.obj entries), rest) := by
  have htext : stringify numbers (.obj entries) ++ rest =
      '\x7b' :: (joined (memberTexts numbers entries) ++ '\x7d' :: rest) := by
    rw [stringify]
    simp
  rw [htext, clean, cleanEntries_eq_map]
  rw [memberTexts_eq_memberText] at hfuel ⊢
  generalize hkept : (entries.filter fun entry => !isUndefined entry.2) = kept at *
  have hkeptKeys : (kept.map Prod.fst).Nodup := by
    rw [← hkept]
    exact hkeys.sublist (List.filter_sublist.map Prod.fst)
  have hkeptRead : ∀ entry ∈ kept,
      Reads (scanValue fuel) (stringify numbers entry.2) (clean entry.2) := by
    intro entry hentry
    rw [← hkept] at hentry
    have hmem := List.mem_filter.mp hentry
    exact hread entry hmem.1 (by simpa using hmem.2)
  clear hkept
  cases kept with
  | nil => rfl
  | cons entry kept =>
    have hforall : List.Forall₂
        (fun member entry => member.1 = entry.1 ∧ Reads (scanValue fuel) member.2 entry.2)
        ((entry :: kept).map fun entry => (entry.1, stringify numbers entry.2))
        ((entry :: kept).map fun entry => (entry.1, clean entry.2)) := by
      rw [List.forall₂_map_left_iff, List.forall₂_map_right_iff, List.forall₂_same]
      exact fun entry hentry => ⟨rfl, hkeptRead entry hentry⟩
    have hscan := scanMembers_joined hforall (by simp) (by simpa using hfuel) (o := [])
      (by simpa [Obj.keys, Function.comp_def] using hkeptKeys) rest
    rw [scanValue, skipWhitespace_cons rfl]
    simp only
    obtain ⟨cs', hhead⟩ := head_joined '"' (entry.1.toList.flatMap quoteChar ++ '"' :: ':' ::
      stringify numbers entry.2) ((kept.map fun entry => (entry.1, stringify numbers entry.2)).map
        fun member => memberText member.1 member.2) ('\x7d' :: rest)
    have hmember : joined (((entry :: kept).map fun entry =>
        (entry.1, stringify numbers entry.2)).map fun member => memberText member.1 member.2) ++
          '\x7d' :: rest = '"' :: cs' := by
      rw [← hhead]
      simp [memberText, quote]
    rw [hmember] at hscan ⊢
    rw [skipWhitespace_cons rfl]
    simp [hscan]

/-- The text of a value is read as what `clean` leaves of the value. -/
theorem scanValue_stringify {val : Val} (h : Valid numbers.isNumber val) {fuel : ℕ}
    (hfuel : (stringify numbers val).length ≤ fuel + 1) :
    Reads (scanValue (fuel + 1)) (stringify numbers val) (clean val) := by
  induction h generalizing fuel with
  | undefined => exact fun rest _ => rfl
  | null => exact fun rest _ => rfl
  | bool b => cases b <;> exact fun rest _ => rfl
  | num x hx => exact fun rest hrest => scanValue_number hx fuel hrest
  | str s =>
    intro rest hrest
    have htext : stringify numbers (.str s) ++ rest =
        '"' :: (s.toList.flatMap quoteChar ++ '"' :: rest) := by
      simp [stringify, quote]
    rw [htext, scanValue, skipWhitespace_cons rfl]
    simp only
    rw [scanString_quote]
    rfl
  | arr items hitems ih =>
    have hlength := length_le_joined (items.map (stringify numbers))
    rw [stringify, itemTexts_eq_map] at hfuel
    simp only [List.length_append, List.length_cons, List.length_nil, List.length_map] at *
    obtain ⟨fuel, rfl⟩ : ∃ fuel', fuel = fuel' + 1 := ⟨fuel - 1, by omega⟩
    intro rest _
    apply scanValue_array hitems (by omega)
    intro item hitem
    apply ih item hitem
    have hitemLength := hlength.2 _ (List.mem_map_of_mem hitem)
    omega
  | obj entries hkeys hentries ih =>
    have hlength := length_le_joined (memberTexts numbers entries)
    rw [stringify] at hfuel
    simp only [List.length_append, List.length_cons, List.length_nil] at *
    obtain ⟨fuel, rfl⟩ : ∃ fuel', fuel = fuel' + 1 := ⟨fuel - 1, by omega⟩
    intro rest _
    apply scanValue_object hkeys (by omega)
    intro entry hentry hdefined
    apply ih entry hentry
    have hmember :
        memberText entry.1 (stringify numbers entry.2) ∈ memberTexts numbers entries := by
      rw [memberTexts_eq_map]
      exact List.mem_map.mpr ⟨entry, List.mem_filter.mpr ⟨hentry, by simp [hdefined]⟩, rfl⟩
    have hentryLength := hlength.2 _ hmember
    simp only [memberText, List.length_append, List.length_cons] at hentryLength
    omega

/-- What is written is read back, but for what `undefined` loses. -/
theorem parse_stringify {val : Val} (h : Valid numbers.isNumber val) :
    parse (stringify numbers val) = some (clean val) := by
  have hread := scanValue_stringify h (Nat.le_succ _) [] (by intro c hc; simp at hc)
  rw [List.append_nil] at hread
  rw [parse, hread]
  rfl

end Parse
end Json
end Js
