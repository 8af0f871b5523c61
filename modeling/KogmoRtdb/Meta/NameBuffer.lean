import Mathlib.Data.List.GetD
import KogmoRtdb.Lib.Extent
import KogmoRtdb.Meta.Searchinfo

/-!
# The local copy of a search name

`_kogmo_rtdb_obj_searchinfo` copies the name into an array of `KOGMO_RTDB_OBJMETA_NAME_MAXLEN`
characters in two cases: to cut off a type at its end, as in `~Name#42`, and to replace it as
`KOGMO_RTDB_NAMEREMAP` says. The cut is made where the type was found in the name itself, not in
the copy, and the new name's length is bounded by one too many. `nameBuffer_safe_iff` says which
names and which remaps go wrong.

The regular expressions are matched here as `regexec` does, at the leftmost place.
-/

namespace KogmoRtdb

/-! ## The array -/

def nul : Char := Char.ofNat 0

/-- A local array of characters, and what has been stored into it. -/
structure CharBuf where
  cells : Int → Char
  stores : List Extent

/-- `searchname[i] = c`. -/
def CharBuf.put (buf : CharBuf) (i : Int) (c : Char) : CharBuf where
  cells := Function.update buf.cells i c
  stores := ⟨i, 1⟩ :: buf.stores

/-- `strncpy`: behind the end of the string there are zeros. -/
def CharBuf.strncpy (buf : CharBuf) (src : List Char) (n : Nat) : CharBuf where
  cells := fun i => if 0 ≤ i ∧ i < n then src.getD i.toNat nul else buf.cells i
  stores := ⟨0, n⟩ :: buf.stores

/-- A conversion to `size_t`. -/
def sizeT (n : Int) : Nat := (n % 2 ^ 64).toNat

/-! ## The type at the end of a name -/

def isHexDigit (c : Char) : Bool :=
  c.isDigit || ('a' ≤ c && c ≤ 'f') || ('A' ≤ c && c ≤ 'F')

/-- `[0-9][0-9]*|0[xX]([0-9a-fA-F][0-9a-fA-F]*)`. -/
def isNumber : List Char → Bool
  | '0' :: x :: c :: digits =>
      (x = 'x' || x = 'X') && (c :: digits).all isHexDigit ||
        ('0' :: x :: c :: digits).all Char.isDigit
  | digits => digits ≠ [] && digits.all Char.isDigit

def isNumberToEnd (s : List Char) : Bool := isNumber (s.reverse.dropWhile (· = ' ')).reverse

/-- The leftmost match of `\#(..) *$`, `re_match[0].rm_so`. -/
def typeSo : List Char → Option Nat
  | [] => none
  | c :: rest => if c = '#' && isNumberToEnd rest then some 0 else (typeSo rest).map (· + 1)

/-! ## `KOGMO_RTDB_NAMEREMAP` -/

/-- The loop over `origname=newname,origname2=newname2,...`: what follows the `=` of the entry
for the name, if there is one. -/
def remapLoop (name : ObjName) : Nat → List Char → Option (Option (List Char))
  | 0, _ => none
  | fuel + 1, p =>
      if p = [] then some none
      else
        let orig := p.takeWhile (· ≠ '=')
        match p.dropWhile (· ≠ '=') with
        | [] => some none
        | _ :: q =>
            if wrap32 name.length = orig.length ∧ name.take orig.length = orig then some (some q)
            else
              match q.dropWhile (· ≠ ',') with
              | [] => some none
              | _ :: p => remapLoop name fuel p

def newname (q : List Char) : List Char := q.takeWhile (· ≠ ',')

/-- Its length, as an `int`. -/
def remapLen (q : List Char) : Int := wrap32 (newname q).length

def clampLen (len : Int) : Int := if nameMaxlen < len then nameMaxlen else len

/-! ## The treatment of the name -/

/-- The array afterwards, and the place in it where the string starts that is compiled or
compared, unless that is the caller's. -/
structure NameOut where
  buf : CharBuf
  used : Option Nat

/-- The part of `_kogmo_rtdb_obj_searchinfo` before the scan. A name that is an object id is
answered at once. -/
def nameBuffer (directOid : ObjName → ObjId) (debug : Bool) (remap : Option (List Char))
    (name : Option ObjName) (fuel : Nat) (buf : CharBuf) : Option NameOut :=
  match name with
  | none => some ⟨buf, none⟩
  | some ('~' :: rest) =>
      if directOid ('~' :: rest) ≠ 0 then some ⟨buf, none⟩
      else
        match typeSo ('~' :: rest) with
        | none => some ⟨buf, none⟩
        | some so =>
            -- compiled from `&name[1]` on
            some ⟨(buf.strncpy ('~' :: rest) nameMaxlen).put so nul, some 1⟩
  | some name =>
      match remap with
      | none => some ⟨buf, none⟩
      | some p =>
          if debug then
            (remapLoop name fuel p).map fun
              | none => ⟨buf, none⟩
              | some q =>
                  let len := clampLen (remapLen q)
                  ⟨(buf.strncpy q (sizeT len)).put len nul, some 0⟩
          else some ⟨buf, none⟩

/-- All stores are in the array, and so is the end of the string. -/
structure NameOut.Safe (out : NameOut) : Prop where
  inside : ∀ e ∈ out.buf.stores, e.Inside nameMaxlen
  terminated : ∀ k, out.used = some k → ∃ j : Nat, k ≤ j ∧ j < nameMaxlen ∧ out.buf.cells j = nul

/-- The treatment of the name ends, and stays in the array. -/
def NameBufferSafe (directOid : ObjName → ObjId) (debug : Bool) (remap : Option (List Char))
    (name : Option ObjName) (cells : Int → Char) : Prop :=
  (∃ fuel out, nameBuffer directOid debug remap name fuel ⟨cells, []⟩ = some out) ∧
    ∀ fuel out, nameBuffer directOid debug remap name fuel ⟨cells, []⟩ = some out → out.Safe

/-- The type is found in the first `KOGMO_RTDB_OBJMETA_NAME_MAXLEN` characters, and a new name is
shorter than that. -/
def NameFits (directOid : ObjName → ObjId) (debug : Bool) (remap : Option (List Char)) :
    Option ObjName → Prop
  | none => True
  | some ('~' :: rest) =>
      directOid ('~' :: rest) = 0 → ∀ so, typeSo ('~' :: rest) = some so → so < nameMaxlen
  | some name => debug = true → ∀ p, remap = some p →
      ∀ fuel q, remapLoop name fuel p = some (some q) → 0 ≤ remapLen q ∧ remapLen q < nameMaxlen

/-! ## Results -/

variable {directOid : ObjName → ObjId} {debug : Bool} {remap : Option (List Char)}
  {name : ObjName}

theorem typeSo_pos {rest : List Char} {so : Nat} (h : typeSo ('~' :: rest) = some so) :
    0 < so := by
  rw [typeSo, if_neg (by simp)] at h
  obtain ⟨k, -, rfl⟩ := Option.map_eq_some_iff.mp h
  exact Nat.succ_pos k

/-- The loop ends: each entry is shorter than the rest of the string. -/
theorem remapLoop_ends (name : ObjName) :
    ∀ (fuel : Nat) (p : List Char), p.length < fuel → ∃ r, remapLoop name fuel p = some r
  | 0, _, h => absurd h (Nat.not_lt_zero _)
  | fuel + 1, p, h => by
      rw [remapLoop]
      by_cases hp : p = []
      · exact ⟨none, if_pos hp⟩
      rw [if_neg hp]
      cases heq : p.dropWhile (· ≠ '=') with
      | nil => exact ⟨none, rfl⟩
      | cons c q =>
          have hq : (c :: q).length ≤ p.length := heq ▸ (List.dropWhile_suffix _).length_le
          dsimp only
          split
          · exact ⟨some q, rfl⟩
          · cases hcomma : q.dropWhile (· ≠ ',') with
            | nil => exact ⟨none, rfl⟩
            | cons d p' =>
                have hp' : (d :: p').length ≤ q.length :=
                  hcomma ▸ (List.dropWhile_suffix _).length_le
                simp only [List.length_cons] at hq hp'
                exact remapLoop_ends name fuel p' (by omega)

theorem nameBuffer_ends (directOid : ObjName → ObjId) (debug : Bool)
    (remap : Option (List Char)) (name : Option ObjName) (buf : CharBuf) :
    ∃ fuel out, nameBuffer directOid debug remap name fuel buf = some out := by
  unfold nameBuffer
  split
  · exact ⟨0, _, rfl⟩
  · split
    · exact ⟨0, _, rfl⟩
    · split <;> exact ⟨0, _, rfl⟩
  · split
    · exact ⟨0, _, rfl⟩
    · rename_i name _ _ p
      cases debug with
      | false => exact ⟨0, _, rfl⟩
      | true =>
          obtain ⟨r, hr⟩ := remapLoop_ends name (p.length + 1) p (Nat.lt_succ_self _)
          refine ⟨p.length + 1, ?_⟩
          rw [hr]
          exact ⟨_, rfl⟩

theorem safe_untouched (cells : Int → Char) : NameOut.Safe ⟨⟨cells, []⟩, none⟩ :=
  ⟨fun e he => absurd he List.not_mem_nil, fun k hk => by cases hk⟩

theorem safe_cut_iff (cells : Int → Char) (src : List Char) {so : Nat} (hpos : 0 < so) :
    NameOut.Safe ⟨((⟨cells, []⟩ : CharBuf).strncpy src nameMaxlen).put so nul, some 1⟩ ↔
      so < nameMaxlen := by
  constructor
  · rintro ⟨hinside, -⟩
    have hput := hinside ⟨so, 1⟩ List.mem_cons_self
    rw [Extent.inside_one] at hput
    omega
  · intro hlt
    refine ⟨fun e he => ?_, fun k hk => ⟨so, ?_, hlt, ?_⟩⟩
    · rcases List.mem_cons.mp he with rfl | he
      · rw [Extent.inside_one]
        omega
      · rcases List.mem_singleton.mp he with rfl
        rw [Extent.inside_zero]
        omega
    · cases hk
      exact hpos
    · exact Function.update_self ..

theorem safe_remap_iff (cells : Int → Char) (src : List Char) (len : Int) :
    NameOut.Safe ⟨((⟨cells, []⟩ : CharBuf).strncpy src (sizeT (clampLen len))).put (clampLen len)
        nul, some 0⟩ ↔ 0 ≤ len ∧ len < nameMaxlen := by
  have hmax : (nameMaxlen : Int) = 32 := rfl
  constructor
  · rintro ⟨hinside, -⟩
    have hput := hinside ⟨clampLen len, 1⟩ List.mem_cons_self
    rw [Extent.inside_one] at hput
    unfold clampLen at hput
    split at hput <;> omega
  · rintro ⟨h0, hlt⟩
    have hclamp : clampLen len = len := if_neg (by omega)
    have hsize : (sizeT len : Int) = len := by
      unfold sizeT
      rw [Int.emod_eq_of_lt h0 (by omega), Int.toNat_of_nonneg h0]
    rw [hclamp]
    refine ⟨fun e he => ?_, fun k hk => ⟨len.toNat, ?_, by omega, ?_⟩⟩
    · rcases List.mem_cons.mp he with rfl | he
      · rw [Extent.inside_one]
        omega
      · rcases List.mem_singleton.mp he with rfl
        rw [Extent.inside_zero]
        omega
    · cases hk
      exact Nat.zero_le _
    · rw [Int.toNat_of_nonneg h0]
      exact Function.update_self ..

/-- The treatment of a name ends, and stays inside the array if and only if a type in it starts
in the first `KOGMO_RTDB_OBJMETA_NAME_MAXLEN` characters and the name it is replaced by is
shorter than that. -/
theorem nameBuffer_safe_iff (directOid : ObjName → ObjId) (debug : Bool)
    (remap : Option (List Char)) (name : Option ObjName) (cells : Int → Char) :
    NameBufferSafe directOid debug remap name cells ↔ NameFits directOid debug remap name := by
  unfold NameBufferSafe
  rw [and_iff_right (nameBuffer_ends directOid debug remap name _)]
  unfold nameBuffer NameFits
  split
  · refine iff_of_true (fun fuel out h => ?_) trivial
    cases h
    exact safe_untouched cells
  · rename_i rest
    by_cases hoid : directOid ('~' :: rest) = 0
    · simp only [hoid, ne_eq, not_true_eq_false, if_false, forall_true_left]
      cases hso : typeSo ('~' :: rest) with
      | none =>
          refine iff_of_true (fun fuel out h => ?_) fun so h => by cases h
          cases h
          exact safe_untouched cells
      | some so =>
          have hcut := safe_cut_iff cells ('~' :: rest) (typeSo_pos hso)
          refine ⟨fun h so' heq => ?_, fun h fuel out heq => ?_⟩
          · cases heq
            exact hcut.mp (h 0 _ rfl)
          · cases heq
            exact hcut.mpr (h so rfl)
    · simp only [ne_eq, hoid, not_false_eq_true, if_true]
      refine iff_of_true (fun fuel out h => ?_) fun h => absurd h id
      cases h
      exact safe_untouched cells
  · rename_i name _
    cases remap with
    | none =>
        refine iff_of_true (fun fuel out h => ?_) fun _ p h => by cases h
        cases h
        exact safe_untouched cells
    | some p =>
        cases debug with
        | false =>
            refine iff_of_true (fun fuel out h => ?_) fun h => by cases h
            cases h
            exact safe_untouched cells
        | true =>
            dsimp only
            constructor
            · rintro h - p' hp' fuel q hq
              cases hp'
              refine (safe_remap_iff cells q (remapLen q)).mp (h fuel _ ?_)
              rw [if_pos rfl, hq]
              rfl
            · intro h fuel out hout
              rw [if_pos rfl] at hout
              obtain ⟨r, hr, rfl⟩ := Option.map_eq_some_iff.mp hout
              cases r with
              | none => exact safe_untouched cells
              | some q =>
                  exact (safe_remap_iff cells q (remapLen q)).mpr (h rfl p rfl fuel q hr)

/-- A type behind 32 characters, and a new name of 32 characters. -/
theorem exists_not_nameBufferSafe :
    ¬ NameBufferSafe (fun _ => 0) false none
        (some ('~' :: List.replicate 31 'x' ++ ['#', '4', '2'])) (fun _ => nul) ∧
      ¬ NameBufferSafe (fun _ => 0) true (some ('a' :: '=' :: List.replicate 32 'x'))
        (some ['a']) (fun _ => nul) := by
  constructor
  · rintro ⟨-, hsafe⟩
    have hout := (hsafe 0 _ rfl).inside ⟨32, 1⟩ (by decide)
    exact absurd hout (by decide)
  · rintro ⟨-, hsafe⟩
    have hout := (hsafe 1 _ rfl).inside ⟨32, 1⟩ (by decide)
    exact absurd hout (by decide)

end KogmoRtdb
