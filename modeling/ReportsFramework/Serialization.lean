/-
How the values of the model's fields are stored: `serializeVal` writes, `deserializeVal` guesses
from the content and the name of the field what was written.
-/
import ReportsFramework.JsonRoundTrip

namespace Js

namespace Json

/-- Nothing in the value is `undefined`. -/
inductive Plain : Val → Prop
  | null : Plain .null
  | bool (b : Bool) : Plain (.bool b)
  | num (x : ℚ) : Plain (.num x)
  | str (s : String) : Plain (.str s)
  | arr (items : List Val) (h : ∀ item ∈ items, Plain item) : Plain (.arr items)
  | obj (entries : List (String × Val)) (h : ∀ entry ∈ entries, Plain entry.2) :
      Plain (.obj entries)

theorem map_eq_self_iff {α : Type*} {f : α → α} {xs : List α} :
    xs.map f = xs ↔ ∀ x ∈ xs, f x = x := by
  induction xs with
  | nil => simp
  | cons x xs ih => simp [ih]

theorem clean_arr_eq_iff {items : List Val} :
    clean (.arr items) = .arr items ↔ ∀ item ∈ items, clean item = item := by
  rw [clean, cleanItems_eq_map, Val.arr.injEq, map_eq_self_iff]

theorem clean_obj_eq_iff {entries : List (String × Val)} :
    clean (.obj entries) = .obj entries ↔
      ∀ entry ∈ entries, isUndefined entry.2 = false ∧ clean entry.2 = entry.2 := by
  rw [clean, cleanEntries_eq_map, Val.obj.injEq]
  constructor
  · intro h
    have hlength := congrArg List.length h
    rw [List.length_map, List.length_filter_eq_length_iff] at hlength
    rw [List.filter_eq_self.mpr hlength, map_eq_self_iff] at h
    intro entry hentry
    exact ⟨by simpa using hlength entry hentry, congrArg Prod.snd (h entry hentry)⟩
  · intro h
    rw [List.filter_eq_self.mpr fun entry hentry => by simp [(h entry hentry).1], map_eq_self_iff]
    intro entry hentry
    rw [(h entry hentry).2]

theorem isUndefined_of_plain {val : Val} (h : Plain val) : isUndefined val = false := by
  cases h <;> rfl

/-- A text loses nothing but what is `undefined`. -/
theorem clean_eq_iff {isNumber : ℚ → Prop} {val : Val} (h : Valid isNumber val) :
    clean val = val ↔ Plain val := by
  induction h with
  | undefined => exact ⟨fun h => by simp [clean] at h, fun h => by cases h⟩
  | null => exact ⟨fun _ => .null, fun _ => rfl⟩
  | bool b => exact ⟨fun _ => .bool b, fun _ => rfl⟩
  | num x => exact ⟨fun _ => .num x, fun _ => rfl⟩
  | str s => exact ⟨fun _ => .str s, fun _ => rfl⟩
  | arr items _ ih =>
    rw [clean_arr_eq_iff]
    constructor
    · intro h
      exact .arr items fun item hitem => (ih item hitem).mp (h item hitem)
    · rintro (_ | _ | _ | _ | ⟨_, h⟩)
      exact fun item hitem => (ih item hitem).mpr (h item hitem)
  | obj entries hkeys hentries ih =>
    rw [clean_obj_eq_iff]
    constructor
    · intro h
      exact .obj entries fun entry hentry => (ih entry hentry).mp (h entry hentry).2
    · rintro (_ | _ | _ | _ | _ | ⟨_, h⟩)
      intro entry hentry
      exact ⟨isUndefined_of_plain (h entry hentry), (ih entry hentry).mpr (h entry hentry)⟩

end Json

open Json

/-- The white space and the line ends of the language. -/
def isStrWhitespace (c : Char) : Bool :=
  c.toNat ∈ [9, 10, 11, 12, 13, 32, 0xA0, 0x1680, 0x2028, 0x2029, 0x202F, 0x205F, 0x3000, 0xFEFF] ||
    0x2000 ≤ c.toNat && c.toNat ≤ 0x200A

/-- `parseFloat` of a text that starts with a number, where what is behind it does not matter;
`none` stands for what is not finite.  The number itself is exact here. -/
def parseFloat (s : String) : Option ℚ :=
  let (isNegative, cs) := scanSign true (s.toList.dropWhile isStrWhitespace)
  let (int, cs) := cs.span Char.isDigit
  let (frac, cs) : List Char × List Char :=
    match cs with
    | '.' :: rest => rest.span Char.isDigit
    | cs => ([], cs)
  if int.isEmpty && frac.isEmpty then none
  else
    let exponent := ((scanExponent cs).map Prod.fst).getD 0
    let value := decimalValue isNegative int frac exponent
    if |value| < 2 ^ 1024 - 2 ^ 970 then some value else none

example : parseFloat " -1.5e1, etc." = some (-15) ∧ parseFloat "1e400" = none ∧
    parseFloat ".5" = some (1 / 2) ∧ parseFloat "x" = none := by decide +kernel

end Js

namespace ReportsFramework

open Js Js.Json

namespace Serialization

section Vals

variable (numbers : NumberText)

def serializeVal (val : Val) : Val :=
  match val with
  | .bool b => .num (if b then 1 else 0)
  | .arr _ | .obj _ => .str (String.ofList (stringify numbers val))
  | val => val

/-- Only an object or an array counts; `none` stands for `false`. -/
def tryParseJSON (jsonString : Val) : Option Val :=
  match jsonString with
  | .str s =>
      match parse s.toList with
      | some (.arr items) => some (.arr items)
      | some (.obj entries) => some (.obj entries)
      | _ => none
  | _ => none

def boolFields : List String :=
  ["notify", "hidden", "renew", "noClose", "maker", "_isMarginFundingPayment",
    "_isAffiliateRebate", "_isStakingPayments", "_isSubAccountsTransfer", "_isInvoicePayOrder",
    "_isAirdropOnWallet", "_isExchange"]

def deserializeVal (val : Val) (key : String) : Val :=
  let parsed := (tryParseJSON val).getD val
  match val with
  | .num x => if key ∈ boolFields then .bool (x ≠ 0) else parsed
  | .str s =>
      if key = "rate" then
        match parseFloat s with
        | some value => .num value
        | none => val
      else parsed
  | _ => parsed

/-- What is read back from a field as it was: a flag of a flag field, a number of another field,
a text that is no number of the rate and no JSON object or array of another field, and an array or
an object of a field that is not the rate. -/
def RoundTrips (key : String) (val : Val) : Prop :=
  match val with
  | .bool _ => key ∈ boolFields
  | .num _ => key ∉ boolFields
  | .str s => if key = "rate" then parseFloat s = none else tryParseJSON val = none
  | .arr _ | .obj _ => key ≠ "rate" ∧ Plain val
  | .undefined | .null => True

theorem tryParseJSON_str_cases (s : String) :
    tryParseJSON (.str s) = none ∨ (∃ items, tryParseJSON (.str s) = some (.arr items)) ∨
      ∃ entries, tryParseJSON (.str s) = some (.obj entries) := by
  unfold tryParseJSON
  simp only
  split
  · exact .inr (.inl ⟨_, rfl⟩)
  · exact .inr (.inr ⟨_, rfl⟩)
  · exact .inl rfl

theorem deserializeVal_str_of_ne {s key : String} (hkey : key ≠ "rate") :
    deserializeVal (.str s) key = (tryParseJSON (.str s)).getD (.str s) := by
  simp only [deserializeVal]
  rw [if_neg hkey]

theorem parseFloat_bracket {c : Char} (hc : c = '[' ∨ c = '\x7b') (cs : List Char) :
    parseFloat (String.ofList (c :: cs)) = none := by
  rcases hc with rfl | rfl <;> simp [parseFloat, isStrWhitespace, scanSign]

theorem deserializeVal_str (s key : String) :
    deserializeVal (.str s) key = .str s ↔ RoundTrips key (.str s) := by
  by_cases hrate : key = "rate"
  · simp only [deserializeVal, RoundTrips, if_pos hrate]
    cases parseFloat s <;> simp
  · rw [deserializeVal_str_of_ne hrate, RoundTrips, if_neg hrate]
    rcases tryParseJSON_str_cases s with hparsed | ⟨items, hparsed⟩ | ⟨entries, hparsed⟩ <;>
      simp [hparsed]

/-- What was read once is not changed by reading it once more. -/
theorem deserializeVal_deserializeVal (val : Val) (key : String) :
    deserializeVal (deserializeVal val key) key = deserializeVal val key := by
  cases val with
  | num x =>
    by_cases hkey : key ∈ boolFields <;> simp [deserializeVal, hkey, tryParseJSON]
  | str s =>
    by_cases hrate : key = "rate"
    · subst hrate
      have hrate : "rate" ∉ boolFields := by decide
      cases hfloat : parseFloat s <;> simp [deserializeVal, hfloat, hrate, tryParseJSON]
    · rw [deserializeVal_str_of_ne hrate]
      rcases tryParseJSON_str_cases s with hparsed | ⟨items, hparsed⟩ | ⟨entries, hparsed⟩
      · rw [hparsed, Option.getD_none, deserializeVal_str_of_ne hrate, hparsed, Option.getD_none]
      · rw [hparsed]
        rfl
      · rw [hparsed]
        rfl
  | _ => rfl

variable {numbers}

theorem tryParseJSON_stringify_arr {items : List Val} (h : Valid numbers.isNumber (.arr items)) :
    tryParseJSON (serializeVal numbers (.arr items)) = some (clean (.arr items)) := by
  simp only [serializeVal, tryParseJSON, String.toList_ofList, parse_stringify h, clean]

theorem tryParseJSON_stringify_obj {entries : List (String × Val)}
    (h : Valid numbers.isNumber (.obj entries)) :
    tryParseJSON (serializeVal numbers (.obj entries)) = some (clean (.obj entries)) := by
  simp only [serializeVal, tryParseJSON, String.toList_ofList, parse_stringify h, clean]

/-- The text of an array or an object of the rate stays a text; of another field it is read. -/
theorem deserializeVal_text {val parsed : Val} {s : String} {c : Char} {cs : List Char}
    (hc : c = '[' ∨ c = '\x7b') (htext : s = String.ofList (c :: cs))
    (hparsed : tryParseJSON (.str s) = some parsed) (hval : val ≠ .str s) (key : String) :
    deserializeVal (.str s) key = val ↔ key ≠ "rate" ∧ parsed = val := by
  have hfloat : parseFloat s = none := by
    rw [htext, parseFloat_bracket hc]
  by_cases hrate : key = "rate"
  · simp [deserializeVal, hrate, hfloat, hval.symm]
  · simp [deserializeVal, hrate, hparsed]

/-- A value is read back from what was written exactly if `RoundTrips` says so. -/
theorem deserializeVal_serializeVal_iff {val : Val} (h : Valid numbers.isNumber val)
    (key : String) :
    deserializeVal (serializeVal numbers val) key = val ↔ RoundTrips key val := by
  cases h with
  | undefined => exact iff_of_true rfl trivial
  | null => exact iff_of_true rfl trivial
  | bool b =>
    simp only [serializeVal, deserializeVal, RoundTrips, tryParseJSON]
    cases b <;> by_cases hkey : key ∈ boolFields <;> simp [hkey]
  | num x hx =>
    simp only [serializeVal, deserializeVal, RoundTrips, tryParseJSON]
    by_cases hkey : key ∈ boolFields <;> simp [hkey]
  | str s => exact deserializeVal_str s key
  | arr items hitems =>
    have hvalid : Valid numbers.isNumber (.arr items) := .arr items hitems
    exact (deserializeVal_text (.inl rfl) rfl (tryParseJSON_stringify_arr hvalid) (by simp)
      key).trans (and_congr_right fun _ => clean_eq_iff hvalid)
  | obj entries hkeys hentries =>
    have hvalid : Valid numbers.isNumber (.obj entries) := .obj entries hkeys hentries
    exact (deserializeVal_text (.inr rfl) rfl (tryParseJSON_stringify_obj hvalid) (by simp)
      key).trans (and_congr_right fun _ => clean_eq_iff hvalid)

end Vals

end Serialization

namespace SerializationWitness

open Serialization

/-- The numbers of one digit. -/
def digits : NumberText where
  isNumber x := ∃ n < 10, x = (n : ℕ)
  text x := [Char.ofNat ('0'.toNat + x.num.toNat)]
  scan_text := by
    rintro x ⟨n, hn, rfl⟩
    have hdigit : ∀ n < 10, scanNumber [Char.ofNat ('0'.toNat + n)] = some ((n : ℚ), []) := by
      decide +kernel
    exact hdigit n hn

/-- A ledger whose description is the text of an array. -/
theorem description_not_read_back :
    deserializeVal (serializeVal digits (.str "[1]")) "description" ≠ .str "[1]" := by
  have hsome : (tryParseJSON (.str "[1]")).isSome := by decide +kernel
  have htext : serializeVal digits (.str "[1]") = .str "[1]" := rfl
  rw [htext, deserializeVal_str_of_ne (by decide)]
  rcases tryParseJSON_str_cases "[1]" with hparsed | ⟨items, hparsed⟩ | ⟨entries, hparsed⟩
  · simp [hparsed] at hsome
  · simp [hparsed]
  · simp [hparsed]

theorem deserializeVal_serializeVal_wallets :
    Valid digits.isNumber (.obj [("exchange", .arr [.num 1, .null]), ("note", .str "\"[]\"")]) ∧
      deserializeVal (serializeVal digits
          (.obj [("exchange", .arr [.num 1, .null]), ("note", .str "\"[]\"")])) "balances" =
        .obj [("exchange", .arr [.num 1, .null]), ("note", .str "\"[]\"")] := by
  have hvalid : Valid digits.isNumber
      (.obj [("exchange", .arr [.num 1, .null]), ("note", .str "\"[]\"")]) := by
    apply Valid.obj _ (by decide)
    simp only [List.mem_cons, List.not_mem_nil, or_false, forall_eq_or_imp, forall_eq]
    refine ⟨.arr _ ?_, .str _⟩
    simp only [List.mem_cons, List.not_mem_nil, or_false, forall_eq_or_imp, forall_eq]
    exact ⟨.num 1 ⟨1, by decide, rfl⟩, .null⟩
  refine ⟨hvalid, (deserializeVal_serializeVal_iff hvalid "balances").mpr ⟨by decide, ?_⟩⟩
  apply Plain.obj
  simp only [List.mem_cons, List.not_mem_nil, or_false, forall_eq_or_imp, forall_eq]
  refine ⟨.arr _ ?_, .str _⟩
  simp only [List.mem_cons, List.not_mem_nil, or_false, forall_eq_or_imp, forall_eq]
  exact ⟨.num 1, .null⟩

end SerializationWitness

end ReportsFramework
