import Mathlib.Algebra.Group.Int.Defs
import Mathlib.Algebra.Group.Nat.Defs

/-!
# Formatted input and output

Decimal numbers as `printf` writes them, and `sscanf` and `strtoul` as they read them, in the C
locale. A format is a list of directives; what is read are the fields up to the first directive
that does not match.

`ReadsAs` says what a directive makes of a text and what it leaves; a whole format is read along
its directives (`sscanf_cons`).
-/

namespace Scanf

/-! ## Numbers -/

/-- `isspace`. -/
def isSpace (c : Char) : Bool :=
  c = ' ' || c = '\t' || c = '\n' || c = '\x0b' || c = '\x0c' || c = '\r'

/-- `%0<width>lli`. -/
def padded (width : Nat) (n : Int) : List Char :=
  let digits := Nat.toDigits 10 n.natAbs
  if n < 0 then '-' :: (List.replicate (width - 1 - digits.length) '0' ++ digits)
  else List.replicate (width - digits.length) '0' ++ digits

def splitSign : List Char → Bool × List Char
  | '-' :: rest => (true, rest)
  | '+' :: rest => (false, rest)
  | rest => (false, rest)

/-- A decimal number at the beginning, and what follows it. -/
def scanNumber (s : List Char) : Option (Int × List Char) :=
  let (negative, rest) := splitSign (s.dropWhile isSpace)
  let digits := rest.takeWhile Char.isDigit
  if digits = [] then none
  else
    let n : Int := Nat.ofDigitChars 10 digits 0
    some (if negative then -n else n, rest.dropWhile Char.isDigit)

def isHexDigit (c : Char) : Bool :=
  c.isDigit || ('a' ≤ c && c ≤ 'f') || ('A' ≤ c && c ≤ 'F')

def hexDigit (c : Char) : Nat :=
  if c.isDigit then c.toNat - '0'.toNat
  else if 'a' ≤ c then c.toNat - 'a'.toNat + 10
  else c.toNat - 'A'.toNat + 10

/-- A number as `%i` takes it, which may be octal or hexadecimal. -/
def scanInteger (s : List Char) : Option Int :=
  let (negative, rest) := splitSign (s.dropWhile isSpace)
  let sign (n : Nat) : Int := if negative then -n else n
  match rest with
  | '0' :: 'x' :: hex | '0' :: 'X' :: hex =>
      let digits := hex.takeWhile isHexDigit
      if digits = [] then none
      else some (sign (digits.foldl (fun n c => 16 * n + hexDigit c) 0))
  | '0' :: _ => some (sign (Nat.ofDigitChars 8 (rest.takeWhile fun c => '0' ≤ c && c ≤ '7') 0))
  | _ => (scanNumber s).map Prod.fst

/-- `strtoul` with base 10: the number, and how many characters have been read for it. -/
def strtoul (s : List Char) : Nat × Nat :=
  match scanNumber s with
  | none => (0, 0)
  | some (n, rest) =>
      (if 2 ^ 64 ≤ n.natAbs then 2 ^ 64 - 1 else (n % 2 ^ 64).toNat, s.length - rest.length)

/-! ## Formats -/

inductive Directive where
  /-- `%d`. -/
  | number
  | char (c : Char)
  /-- `%*[…]`. -/
  | skip (set : List Char)
  /-- `%<width>s`. -/
  | word (width : Nat)

inductive Field where
  | number (n : Int)
  | word (w : List Char)
  deriving DecidableEq

namespace Directive

/-- What a directive reads, if it matches, and what it leaves. -/
def scan : Directive → List Char → Option (Option Field × List Char)
  | number, s => (scanNumber s).map fun (n, rest) => (some (.number n), rest)
  | char c, s => if s.head? = some c then some (none, s.tail) else none
  | skip set, s =>
      if s.takeWhile (· ∈ set) = [] then none else some (none, s.dropWhile (· ∈ set))
  | word width, s =>
      let s := s.dropWhile isSpace
      let w := (s.takeWhile fun c => !isSpace c).take width
      if w = [] then none else some (some (.word w), s.drop w.length)

end Directive

def sscanf : List Directive → List Char → List Field
  | [], _ => []
  | d :: ds, s =>
      match d.scan s with
      | none => []
      | some (field, rest) => field.toList ++ sscanf ds rest

/-! ## Reading what has been written -/

variable {ds rest w : List Char} {c : Char} {n width : Nat}

/-- `rest` does not go on with a digit. -/
def NoDigitFirst (rest : List Char) : Prop := ∀ c, rest.head? = some c → c.isDigit = false

theorem noDigitFirst_cons (h : c.isDigit = false) : NoDigitFirst (c :: rest) := by
  intro c' hc
  obtain rfl : c = c' := Option.some.inj hc
  exact h

theorem noDigitFirst_nil : NoDigitFirst [] := by
  intro c hc
  cases hc

theorem isSpace_of_isDigit (h : c.isDigit = true) : isSpace c = false := by
  cases hspace : isSpace c with
  | false => rfl
  | true =>
      simp only [isSpace, Bool.or_eq_true, decide_eq_true_eq] at hspace
      rcases hspace with ((((rfl | rfl) | rfl) | rfl) | rfl) | rfl
      all_goals cases h

theorem splitSign_digits (h : c.isDigit = true) : splitSign (c :: ds) = (false, c :: ds) := by
  unfold splitSign
  split
  · rename_i heq
    obtain ⟨rfl, -⟩ := List.cons.inj heq
    cases h
  · rename_i heq
    obtain ⟨rfl, -⟩ := List.cons.inj heq
    cases h
  · rfl

theorem NoDigitFirst.takeWhile (h : NoDigitFirst rest) : rest.takeWhile Char.isDigit = [] := by
  cases rest with
  | nil => rfl
  | cons c rest => exact List.takeWhile_cons_of_neg (by simp [h c rfl])

theorem NoDigitFirst.dropWhile (h : NoDigitFirst rest) : rest.dropWhile Char.isDigit = rest := by
  cases rest with
  | nil => rfl
  | cons c rest => exact List.dropWhile_cons_of_neg (by simp [h c rfl])

/-- Digits are worth less than a one behind them would be. -/
theorem ofDigitChars_lt (hds : ∀ c ∈ ds, c.isDigit = true) (n : Nat) :
    Nat.ofDigitChars 10 ds n < (n + 1) * 10 ^ ds.length := by
  induction ds generalizing n with
  | nil => simp
  | cons c ds ih =>
      have hc : c.toNat - '0'.toNat ≤ 9 := by
        have hdigit := hds c List.mem_cons_self
        simp only [Char.isDigit, Bool.and_eq_true, decide_eq_true_eq] at hdigit
        have hle : c.toNat ≤ 57 := UInt32.le_iff_toNat_le.mp hdigit.2
        have hzero : '0'.toNat = 48 := rfl
        omega
      have hlt := ih (fun d hd => hds d (List.mem_cons_of_mem _ hd))
        (10 * n + (c.toNat - '0'.toNat))
      rw [Nat.ofDigitChars_cons, List.length_cons, Nat.pow_succ]
      calc Nat.ofDigitChars 10 ds (10 * n + (c.toNat - '0'.toNat))
          < (10 * n + (c.toNat - '0'.toNat) + 1) * 10 ^ ds.length := hlt
        _ ≤ ((n + 1) * 10) * 10 ^ ds.length := Nat.mul_le_mul_right _ (by omega)
        _ = (n + 1) * (10 ^ ds.length * 10) := by rw [Nat.mul_assoc, Nat.mul_comm 10]

theorem scanNumber_digits (hne : ds ≠ []) (hds : ∀ c ∈ ds, c.isDigit = true)
    (hrest : NoDigitFirst rest) :
    scanNumber (ds ++ rest) = some (((Nat.ofDigitChars 10 ds 0 : Nat) : Int), rest) := by
  obtain ⟨c, cs, rfl⟩ := List.exists_cons_of_ne_nil hne
  have hc : c.isDigit = true := hds c List.mem_cons_self
  have hspace : ((c :: cs) ++ rest).dropWhile isSpace = (c :: cs) ++ rest :=
    List.dropWhile_cons_of_neg (by simp [isSpace_of_isDigit hc])
  have hsign : splitSign ((c :: cs) ++ rest) = (false, (c :: cs) ++ rest) := splitSign_digits hc
  have htake : ((c :: cs) ++ rest).takeWhile Char.isDigit = c :: cs := by
    rw [List.takeWhile_append_of_pos hds, hrest.takeWhile, List.append_nil]
  have hdrop : ((c :: cs) ++ rest).dropWhile Char.isDigit = rest := by
    rw [List.dropWhile_append_of_pos hds, hrest.dropWhile]
  unfold scanNumber
  rw [hspace, hsign]
  dsimp only
  rw [htake, hdrop, if_neg (List.cons_ne_nil c cs)]
  rfl

/-- `strtoul` reads a text of digits to its end. -/
theorem strtoul_digits (hne : ds ≠ []) (hds : ∀ c ∈ ds, c.isDigit = true)
    (hsmall : Nat.ofDigitChars 10 ds 0 < 2 ^ 64) :
    strtoul ds = (Nat.ofDigitChars 10 ds 0, ds.length) := by
  have hscan := scanNumber_digits hne hds noDigitFirst_nil
  rw [List.append_nil] at hscan
  unfold strtoul
  rw [hscan]
  dsimp only
  rw [if_neg (by rw [Int.natAbs_natCast]; omega),
    Int.emod_eq_of_lt (Int.natCast_nonneg _) (by omega), Int.toNat_natCast]
  rfl

/-! ## Reading along a format -/

variable {format : List Directive} {s : List Char}

theorem sscanf_cons {d : Directive} (field : Option Field) (rest : List Char)
    (h : d.scan s = some (field, rest)) :
    sscanf (d :: format) s = field.toList ++ sscanf format rest := by
  rw [sscanf, h]

theorem sscanf_number (hne : ds ≠ []) (hds : ∀ c ∈ ds, c.isDigit = true)
    (hrest : NoDigitFirst rest) :
    sscanf (.number :: format) (ds ++ rest) =
      .number ((Nat.ofDigitChars 10 ds 0 : Nat) : Int) :: sscanf format rest :=
  sscanf_cons _ _ (by rw [Directive.scan, scanNumber_digits hne hds hrest]; rfl)

theorem sscanf_char : sscanf (.char c :: format) (c :: rest) = sscanf format rest :=
  sscanf_cons none rest (if_pos rfl)

theorem sscanf_skip {set : List Char} (hc : c ∈ set)
    (hrest : ∀ c', rest.head? = some c' → c' ∉ set) :
    sscanf (.skip set :: format) (c :: rest) = sscanf format rest := by
  have htake : (c :: rest).takeWhile (· ∈ set) ≠ [] := by
    simp [hc]
  have hdrop : (c :: rest).dropWhile (· ∈ set) = rest := by
    simp only [List.dropWhile_cons, hc, decide_true, if_true]
    cases rest with
    | nil => rfl
    | cons c' rest => exact List.dropWhile_cons_of_neg (by simpa using hrest c' rfl)
  refine sscanf_cons none rest ?_
  rw [Directive.scan, if_neg htake, hdrop]

theorem sscanf_word (hne : ds ≠ []) (hds : ∀ c ∈ ds, c.isDigit = true) (hlen : ds.length ≤ width) :
    sscanf [.word width] ds = [.word ds] := by
  obtain ⟨c, cs, rfl⟩ := List.exists_cons_of_ne_nil hne
  have hspace (c' : Char) (hmem : c' ∈ c :: cs) : isSpace c' = false :=
    isSpace_of_isDigit (hds c' hmem)
  have hdrop : (c :: cs).dropWhile isSpace = c :: cs :=
    List.dropWhile_cons_of_neg (by simp [hspace c List.mem_cons_self])
  have htake : (c :: cs).takeWhile (fun c => !isSpace c) = c :: cs := by
    have hall : (c :: cs ++ []).takeWhile (fun c => !isSpace c) = c :: cs ++ [].takeWhile _ :=
      List.takeWhile_append_of_pos fun c' hmem => by simp [hspace c' hmem]
    simpa using hall
  refine (sscanf_cons (some (.word (c :: cs))) [] ?_).trans rfl
  rw [Directive.scan, hdrop, htake, List.take_of_length_le hlen, if_neg hne, List.drop_length]

/-! ## What `printf` writes -/

theorem padded_natCast (width n : Nat) :
    padded width n = List.replicate (width - (Nat.toDigits 10 n).length) '0' ++
      Nat.toDigits 10 n := by
  rw [padded, Int.natAbs_natCast, if_neg (by omega)]

theorem isDigit_of_mem_padded (h : c ∈ padded width n) : c.isDigit = true := by
  rw [padded_natCast] at h
  rcases List.mem_append.mp h with hzero | hdigit
  · rw [(List.mem_replicate.mp hzero).2]
    rfl
  · exact Nat.isDigit_of_mem_toDigits (by decide) (by decide) hdigit

theorem padded_ne_nil (width n : Nat) : padded width n ≠ [] := by
  rw [padded_natCast]
  intro h
  have hlen := Nat.length_toDigits_pos (b := 10) (n := n)
  rw [(List.append_eq_nil_iff.mp h).2] at hlen
  cases hlen

theorem ofDigitChars_padded (width n : Nat) : Nat.ofDigitChars 10 (padded width n) 0 = n := by
  rw [padded_natCast, Nat.ofDigitChars_append, Nat.ofDigitChars_replicate_zero, Nat.mul_zero,
    Nat.ofDigitChars_ten_toDigits]

theorem length_padded (hpos : 0 < width) (hn : n < 10 ^ width) :
    (padded width n).length = width := by
  have hlen : (Nat.toDigits 10 n).length ≤ width :=
    (Nat.length_toDigits_le_iff (by decide) hpos).mpr hn
  rw [padded_natCast, List.length_append, List.length_replicate]
  omega

end Scanf
