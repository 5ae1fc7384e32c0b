import Mathlib.Data.String.Basic
import LoadSweep.Command.Line

/-!
# `LoadSweep/Proofs/Values.lean` — a value that is typed as it is shown is read as it is

The text of a number, a mode or an operation is read as that number, mode or operation. Several of
them go into one word: texts that were put together with commas are cut apart again, if there is one
of them at least and no comma in any (`splitOn_commaList`). So a list option takes what was typed
for it in one piece and adds it to what it has (`several_commaList`).
-/

set_option autoImplicit false

namespace LoadSweep

/-! ## Cutting a text at a character -/

namespace Text

open String

variable {d : Char}

theorem extract_part (l m r : List Char) :
    Pos.Raw.extract (ofList (l ++ m ++ r)) ⟨utf8Len l⟩ ⟨utf8Len (l ++ m)⟩ = ofList m := by
  rw [utf8Len_append, extract_of_valid]

/-- Where the cutting is: the parts of `l` are cut off, `m` is the part it is in, and `r` is what it
has not seen. -/
theorem splitOnAux_char (l m r : List Char) (acc : List String) :
    (ofList (l ++ m ++ r)).splitOnAux (ofList [d]) ⟨utf8Len l⟩ ⟨utf8Len (l ++ m)⟩ 0 acc
      = acc.reverse ++ (List.splitOnPPrepend (· == d) r m.reverse).map ofList := by
  have hsep : Pos.Raw.get (ofList [d]) 0 = d := get_of_valid [] [d]
  have hsepNext : Pos.Raw.next (ofList [d]) 0 = ⟨d.utf8Size⟩ := by simpa using next_of_valid [] d []
  have hsepEnd : Pos.Raw.atEnd (ofList [d]) ⟨d.utf8Size⟩ = true := by simp [Pos.Raw.le_iff]
  induction r generalizing l m acc with
  | nil =>
    rw [splitOnAux, if_pos ((atEnd_of_valid (l ++ m) []).mpr rfl), extract_part]
    simp
  | cons c r ih =>
    have hmore : ¬ Pos.Raw.atEnd (ofList (l ++ m ++ c :: r)) ⟨utf8Len (l ++ m)⟩ = true := by
      rw [atEnd_of_valid]
      exact List.cons_ne_nil c r
    have hget : Pos.Raw.get (ofList (l ++ m ++ c :: r)) ⟨utf8Len (l ++ m)⟩ = c := get_of_valid _ _
    have hnext : Pos.Raw.next (ofList (l ++ m ++ c :: r)) ⟨utf8Len (l ++ m)⟩
        = ⟨utf8Len (l ++ m ++ [c])⟩ := by
      rw [next_of_valid, utf8Len_append (l ++ m)]
      simp
    rw [splitOnAux, if_neg hmore, hget, hsep, hsepNext, hnext]
    dsimp only
    rw [if_pos hsepEnd, List.splitOnPPrepend_cons_eq_if]
    split
    case isTrue hcut =>
      -- the part ends before this character, and the next begins after it
      have hback : (Pos.Raw.unoffsetBy ⟨utf8Len (l ++ m ++ [c])⟩ ⟨d.utf8Size⟩)
          = ⟨utf8Len (l ++ m)⟩ := by
        obtain rfl := eq_of_beq hcut
        rw [Pos.Raw.ext_iff, utf8Len_append (l ++ m)]
        simp
      have hrest := ih (l ++ m ++ [c]) [] (ofList m :: acc)
      rw [hback, extract_part]
      simpa using hrest
    case isFalse hkeep =>
      have hrest := ih l (m ++ [c]) acc
      have hstay : Pos.Raw.unoffsetBy ⟨utf8Len (l ++ m)⟩ 0 = (⟨utf8Len (l ++ m)⟩ : Pos.Raw) := rfl
      rw [hstay, hnext]
      simpa using hrest

/-- A text cut at one character. -/
theorem splitOn_char (s : String) : s.splitOn (ofList [d]) = (s.toList.splitOn d).map ofList := by
  have hsep : ¬ (ofList [d] == "") = true := by simp
  have haux := splitOnAux_char (d := d) [] [] s.toList []
  rw [splitOn, if_neg hsep, List.splitOn_eq_splitOnP]
  simpa using haux

end Text

namespace Command

open Number

theorem splitOn_commaList {texts : List String} (hne : texts ≠ [])
    (hplain : ∀ text ∈ texts, ',' ∉ text.toList) : (commaList texts).splitOn "," = texts := by
  have hsep : "," = String.ofList [','] := rfl
  have hparts : ∀ part ∈ texts.map String.toList, ',' ∉ part := by
    intro part hpart
    obtain ⟨text, htext, rfl⟩ := List.mem_map.mp hpart
    exact hplain text htext
  have hjoined : (commaList texts).toList = [','].intercalate (texts.map String.toList) :=
    String.toList_intercalate
  rw [hsep, Text.splitOn_char, hjoined, List.splitOn_intercalate ',' hparts (by simpa using hne),
    List.map_map]
  simp [Function.comp_def]

/-! ## Numbers -/

theorem le_ofDigitChars (cs : List Char) (n : Nat) : n ≤ Nat.ofDigitChars 10 cs n := by
  induction cs generalizing n with
  | nil => exact Nat.le_refl n
  | cons c cs ih =>
    rw [Nat.ofDigitChars_cons]
    have hrest := ih (10 * n + (c.toNat - '0'.toNat))
    omega

/-- Digits are read to their number, unless it is too large. -/
theorem readDigits_eq {top : Nat} {beyond : NumberFault} {cs : List Char} {n : Nat}
    (hdigits : ∀ c ∈ cs, c.isDigit = true) (htop : Nat.ofDigitChars 10 cs n ≤ top) :
    readDigits top beyond n cs = .ok (Nat.ofDigitChars 10 cs n) := by
  induction cs generalizing n with
  | nil => rfl
  | cons c cs ih =>
    have hnext : n * 10 + (c.toNat - '0'.toNat) = 10 * n + (c.toNat - '0'.toNat) := by omega
    rw [Nat.ofDigitChars_cons] at htop ⊢
    have hfits := (le_ofDigitChars cs _).trans htop
    rw [readDigits, hdigits c List.mem_cons_self]
    simp only [Bool.not_true, Bool.false_eq_true, if_false, hnext]
    rw [if_neg (Nat.not_lt.mpr hfits)]
    exact ih (fun c' hc' => hdigits c' (List.mem_cons_of_mem c hc')) htop

theorem readMagnitude_toDigits {top n : Nat} {beyond : NumberFault} (h : n ≤ top) :
    readMagnitude top beyond (Nat.toDigits 10 n) = .ok n := by
  have hdigits : ∀ c ∈ Nat.toDigits 10 n, c.isDigit = true :=
    fun c hc => Nat.isDigit_of_mem_toDigits (by decide) (by decide) hc
  have hvalue : Nat.ofDigitChars 10 (Nat.toDigits 10 n) 0 = n := Nat.ofDigitChars_ten_toDigits
  rw [readMagnitude, if_neg Nat.toDigits_ne_nil, readDigits_eq hdigits (by rwa [hvalue]), hvalue]

/-- The text of a number begins with a digit, so it has no sign. -/
theorem toString_eq_cons (n : Nat) : ∃ c cs, (toString n).toList = c :: cs ∧
    Nat.toDigits 10 n = c :: cs ∧ c.isDigit = true := by
  rw [Nat.toString_eq_ofList_toDigits, String.toList_ofList]
  obtain ⟨c, cs, hcs⟩ := List.exists_cons_of_ne_nil (Nat.toDigits_ne_nil (n := n) (b := 10))
  have hc : c ∈ Nat.toDigits 10 n := by
    rw [hcs]
    exact List.mem_cons_self
  exact ⟨c, cs, hcs, hcs, Nat.isDigit_of_mem_toDigits (by decide) (by decide) hc⟩

theorem parseUnsigned_toString {n : Nat} (h : n < 2 ^ 64) : parseUnsigned (toString n) = .ok n := by
  obtain ⟨c, cs, htext, hdigits, hc⟩ := toString_eq_cons n
  have hfits : n ≤ UInt64.size - 1 := Nat.le_pred_of_lt h
  rw [parseUnsigned, htext]
  split
  case h_1 hnil => nomatch hnil
  case h_2 hplus =>
    obtain ⟨rfl, -⟩ := List.cons.inj hplus
    exact absurd hc (by decide)
  case h_3 => rw [← hdigits, readMagnitude_toDigits hfits]

theorem parseSigned_toString {n : Nat} (h : n < 2 ^ 63) :
    parseSigned (toString n) = .ok (Int.ofNat n) := by
  obtain ⟨c, cs, htext, hdigits, hc⟩ := toString_eq_cons n
  have hfits : n ≤ Nat.pow 2 63 - 1 := Nat.le_pred_of_lt h
  rw [parseSigned, htext]
  split
  case h_1 hnil => nomatch hnil
  case h_2 hplus =>
    obtain ⟨rfl, -⟩ := List.cons.inj hplus
    exact absurd hc (by decide)
  case h_3 hminus =>
    obtain ⟨rfl, -⟩ := List.cons.inj hminus
    exact absurd hc (by decide)
  case h_4 =>
    rw [← hdigits, readMagnitude_toDigits hfits]
    rfl

theorem parsePort_toString {n : Nat} (h : n < 2 ^ 16) : parsePort (toString n) = .ok n := by
  have hrange : 0 ≤ Int.ofNat n ∧ Int.ofNat n ≤ (65535 : Nat) := by
    rw [Int.ofNat_eq_natCast]
    omega
  rw [parsePort, parseRanged, parseSigned_toString (by omega)]
  dsimp only
  rw [if_pos hrange]
  rfl

theorem parseCount_toString {n : Nat} (h : n < 2 ^ 64) : parseCount (toString n) = .ok n := by
  rw [parseCount, parseUnsigned_toString h]
  rfl

theorem parseMode_label {mode : KeyMode}
    (h : mode = .sequential ∨ mode = .decimal KeyMode.defaultModulus) :
    parseMode mode.label = .ok mode := by
  rcases h with rfl | rfl <;> decide +kernel

theorem parseOperation_name (op : Operation) : parseOperation op.name = .ok op := by
  cases op <;> decide +kernel

/-! ## Lists of values -/

theorem comma_notMem_toString (n : Nat) : ',' ∉ (toString n).toList := by
  rw [Nat.toString_eq_ofList_toDigits, String.toList_ofList]
  intro hcomma
  exact absurd (Nat.isDigit_of_mem_toDigits (by decide) (by decide) hcomma) (by decide)

theorem comma_notMem_name (op : Operation) : ',' ∉ op.name.toList := by
  cases op <;> decide

variable {α : Type} {s : Setting} {parse : String → Except String α} {text : α → String}
  {l : List α}

theorem readAll_map (hread : ∀ a ∈ l, parse (text a) = .ok a) :
    readAll s parse (l.map text) = .ok l := by
  induction l with
  | nil => rfl
  | cons a l ih =>
    have hrest := ih fun b hb => hread b (List.mem_cons_of_mem a hb)
    rw [List.map_cons, readAll, hread a List.mem_cons_self, hrest]
    rfl

/-- What is typed for a list option in one piece is added to what the option has. -/
theorem several_commaList (hne : l ≠ []) (hplain : ∀ a, ',' ∉ (text a).toList)
    (hread : ∀ a ∈ l, parse (text a) = .ok a) (old : Option (List α)) :
    several s (commaList (l.map text)) old parse = .ok (some (old.getD [] ++ l)) := by
  have hparts : ∀ part ∈ l.map text, ',' ∉ part.toList := by
    intro part hpart
    obtain ⟨a, -, rfl⟩ := List.mem_map.mp hpart
    exact hplain a
  rw [several, splitOn_commaList (by simpa using hne) hparts, readAll_map hread]
  rfl

end Command

end LoadSweep
