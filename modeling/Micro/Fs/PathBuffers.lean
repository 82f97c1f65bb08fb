import Mathlib.Data.List.Forall2
import Micro.Lib.CString
import Micro.Fs.Canonical

/-!
# Path buffers

`vfs_mkcanon` copies a path into `tmp`, cuts it into tokens there, keeps pointers to the tokens
in a list, and builds the result in `out` from them.  Both buffers have 256 bytes, and no copy
looks at that.  In this module the buffers are bytes, the pointers are positions, and a call
fails when it reads or writes outside of a buffer.
-/

namespace Micro.Fs

open Kern Lib List Option

namespace Buffers

/-! ## The source -/

section

variable (size : Nat) (buf : Buf)

/-- `strspn` of the string at a position: the loop stops at the first character that is not
the first delimiter. -/
def strspn (pos : Nat) (delim : CStr) : Option Nat :=
  (scan buf (fun c => c != 0 && (delim.head?.all (c == ·))) (size - pos) pos).map (· - pos)

/-- `strcspn` of the string at a position -/
def strcspn (pos : Nat) (delim : CStr) : Option Nat :=
  (scan buf (fun c => c != 0 && !delim.contains c) (size - pos) pos).map (· - pos)

/-- The byte at a position. -/
def peek (pos : Nat) : Option UInt8 :=
  if pos < size then some (buf pos) else none

/-- `strtok_r` from a position: the buffer, the token and `*saveptr`. -/
def strtokR (s : Nat) (delim : CStr) :
    Option (Buf × Option Nat × Nat) := do
  if (← peek size buf s) = 0 then return (buf, none, s)
  let s := s + (← strspn size buf s delim)
  if (← peek size buf s) = 0 then return (buf, none, s)
  let last := s + (← strcspn size buf s delim)
  if (← peek size buf last) = 0 then return (buf, some s, last)
  return (← store size buf last [0], some s, last + 1)

end

/-- `tmp` of `vfs_mkcanon`: the path, behind the working directory unless it is absolute -/
def fillTmp (tmp : Buf) (path : CStr) (work : Option CStr) : Option Buf :=
  match work with
  | none => strcpy 256 tmp 0 path
  | some work =>
      if path.head? = some 47 then strcpy 256 tmp 0 path
      else do
        let tmp ← strcpy 256 tmp 0 work
        let tmp ← strcat 256 tmp 0 [47]
        strcat 256 tmp 0 path

/-- What `vfs_mkcanon` does with a token; `strcmp` is zero for equal strings only. -/
def keepToken (tokens : KList Nat) (token : Nat) (text : CStr) : KList Nat :=
  if text = [] ∨ text = [46] then tokens
  else if text = [46, 46] then
    if tokens.size ≠ 0 then tokens.popBack else tokens
  else tokens.enqueue token

/-- The loop of `vfs_mkcanon` over the tokens.  Every token uses up a byte of `tmp`, so that its
size bounds the number of turns. -/
def keepTokens (tmp : Buf) (tokens : KList Nat) (token : Option Nat) (saveptr : Nat) :
    (fuel : Nat) → Option (Buf × KList Nat)
  | 0 => none
  | fuel + 1 =>
      match token with
      | none => some (tmp, tokens)
      | some token => do
          let text ← readString 256 tmp token
          let (tmp, next, saveptr) ← strtokR 256 tmp saveptr [47]
          keepTokens tmp (keepToken tokens token text) next saveptr fuel

/-- One turn of the loop that builds `out`. -/
def appendToken (tmp out : Buf) (token : Nat) : Option Buf := do
  let out ← strcat 256 out 0 [47]
  strcat 256 out 0 (← readString 256 tmp token)

/-- `vfs_mkcanon`, given what is in `tmp` and in `out` before: what is in `out` afterwards.  The
length `fsize` it counts is not used. -/
def vfsMkcanon (tmp out : Buf) (path : CStr) (work : Option CStr) : Option Buf := do
  let tmp ← fillTmp tmp path work
  let (tmp, token, saveptr) ← strtokR 256 tmp 0 [47]
  let (tmp, tokens) ← keepTokens tmp KList.create token saveptr 257
  let out ← store 256 out 0 [0]
  let out ← if tokens.size = 0 then strcpy 256 out 0 [47] else some out
  tokens.items.foldlM (appendToken tmp) out

/-! ## Tokens in a buffer -/

section Tokens

variable {size : Nat} {buf : Buf} {pos : Nat} {s : CStr}

section

variable (holds : StringAt size buf pos s)
include holds

theorem peek_eq : peek size buf pos = some (s.headD 0) := by
  have inside := holds.inside
  rw [peek, if_pos (by omega)]
  cases s with
  | nil => exact congrArg some holds.ends
  | cons c s => exact congrArg some (holds.byte (i := 0) rfl)

theorem headD_eq_zero : s.headD 0 = 0 ↔ s = [] := by
  cases s with
  | nil => simp
  | cons c s =>
    have plain := holds.plain
    simp only [mem_cons, not_or] at plain
    simp [Ne.symm plain.1]

theorem strspn_eq : strspn size buf pos [47] = some (s.takeWhile (· == 47)).length := by
  have same : (fun c : UInt8 => c != 0 && ([47] : CStr).head?.all (c == ·)) = (· == 47) := by
    funext c
    by_cases slash : c = 47
    · simp [slash]
    · simp [slash]
  rw [strspn, same, holds.scan_eq rfl, map_some, Nat.add_sub_cancel_left]

theorem strcspn_eq : strcspn size buf pos [47] = some (s.takeWhile (· != 47)).length := by
  have same : s.takeWhile (fun c => c != 0 && !([47] : CStr).contains c) =
      s.takeWhile (· != 47) := by
    have plain := holds.plain
    clear holds
    induction s with
    | nil => rfl
    | cons c s ih =>
      simp only [mem_cons, not_or] at plain
      rw [takeWhile_cons, takeWhile_cons, ih plain.2]
      simp [Ne.symm plain.1]
  rw [strcspn, holds.scan_eq rfl, same, map_some, Nat.add_sub_cancel_left]

end

theorem drop_takeWhile (test : UInt8 → Bool) (s : CStr) :
    s.drop (s.takeWhile test).length = s.dropWhile test := by
  induction s with
  | nil => rfl
  | cons c s ih =>
    rw [takeWhile_cons, dropWhile_cons]
    cases test c with
    | false => rfl
    | true => exact ih

theorem length_takeWhile_le (test : UInt8 → Bool) (s : CStr) :
    (s.takeWhile test).length ≤ s.length :=
  (takeWhile_sublist test).length_le

variable (holds : StringAt size buf pos s)
include holds

theorem skipSlashes :
    StringAt size buf (pos + (s.takeWhile (· == 47)).length) (s.dropWhile (· == 47)) := by
  have rest := holds.drop (length_takeWhile_le (· == 47) s)
  rwa [drop_takeWhile] at rest

theorem strtokR_none (slashes : s.dropWhile (· == 47) = []) :
    ∃ saveptr, strtokR size buf pos [47] = some (buf, none, saveptr) := by
  have rest := skipSlashes holds
  rw [slashes] at rest
  simp only [strtokR, peek_eq holds, strspn_eq holds, peek_eq rest, bind_eq_bind, bind_some]
  by_cases done : s.headD 0 = 0
  · rw [if_pos done]
    exact ⟨_, rfl⟩
  · rw [if_neg done]
    exact ⟨_, rfl⟩

/-- A token is cut off behind the slashes, and the bytes up to `*saveptr` are not written
again. -/
theorem strtokR_some {left : CStr} (isLeft : s.dropWhile (· == 47) = left) (nonempty : left ≠ []) :
    ∃ next token saveptr, strtokR size buf pos [47] = some (next, some token, saveptr) ∧
      StringAt size next token (left.takeWhile (· != 47)) ∧
      token + (left.takeWhile (· != 47)).length ≤ saveptr ∧ pos ≤ saveptr ∧
      StringAt size next saveptr (left.dropWhile (· != 47)).tail ∧
      ∀ k ≤ pos, next k = buf k := by
  have rest := skipSlashes holds
  rw [isLeft] at rest
  have starts : s.headD 0 ≠ 0 := by
    intro zero
    rw [(headD_eq_zero holds).mp zero] at isLeft
    exact nonempty isLeft.symm
  have startsLeft : left.headD 0 ≠ 0 := fun zero => nonempty ((headD_eq_zero rest).mp zero)
  simp only [strtokR, peek_eq holds, strspn_eq holds, peek_eq rest, strcspn_eq rest,
    bind_eq_bind, bind_some, if_neg starts, if_neg startsLeft]
  have after : pos ≤ pos + (s.takeWhile (· == 47)).length := Nat.le_add_right _ _
  generalize pos + (s.takeWhile (· == 47)).length = token at rest after ⊢
  have notEmpty : 0 < (left.takeWhile (· != 47)).length := by
    have notSlash := head?_dropWhile_not (· == 47) s
    rw [isLeft] at notSlash
    cases left with
    | nil => exact absurd rfl nonempty
    | cons c left =>
      have isPlain : (c != 47) = true := by simpa using notSlash
      rw [takeWhile_cons, if_pos isPlain]
      exact Nat.succ_pos _
  have within := length_takeWhile_le (· != 47) left
  have atEnd := rest.drop within
  rw [drop_takeWhile] at atEnd
  rw [peek_eq atEnd, bind_some]
  by_cases done : left.dropWhile (· != 47) = []
  · -- the token ends with the string
    have whole : left.takeWhile (· != 47) = left := by
      have parts := @List.takeWhile_append_dropWhile _ (· != 47) left
      rwa [done, append_nil] at parts
    rw [if_pos ((headD_eq_zero atEnd).mpr done)]
    refine ⟨buf, token, _, rfl, ?_, Nat.le_refl _, by omega, ?_, fun _ _ => rfl⟩
    · rw [whole]
      exact rest
    · rw [done] at atEnd ⊢
      exact atEnd
  · rw [if_neg fun zero => done ((headD_eq_zero atEnd).mp zero)]
    have shorter : (left.takeWhile (· != 47)).length < left.length := by
      apply Nat.lt_of_le_of_ne within
      intro same
      have length := congrArg length (drop_takeWhile (· != 47) left)
      rw [length_drop, same, Nat.sub_self] at length
      exact done (length_eq_zero_iff.mp length.symm)
    have inside := atEnd.inside
    rcases rest.cut shorter with ⟨first, second⟩
    have isToken : left.take (left.takeWhile (· != 47)).length = left.takeWhile (· != 47) := by
      apply Eq.symm
      rw [← prefix_iff_eq_take]
      exact takeWhile_prefix _
    rw [isToken] at first
    rw [← drop_drop, drop_takeWhile, drop_one] at second
    rw [store, length_singleton, if_pos (by omega)]
    refine ⟨_, token, _, rfl, first, by omega, by omega, second, fun k _ => ?_⟩
    exact put_before (by omega)

end Tokens

/-! ## The list of tokens -/

variable {tmp : Buf} {tokens : KList Nat} {texts : List CStr}

/-- The list points to these strings, which `strtok_r` does not write to again. -/
structure Kept (tmp : Buf) (saveptr : Nat) (tokens : KList Nat) (texts : List CStr) : Prop where
  size : tokens.size = tokens.items.length
  texts : List.Forall₂ (fun token text => StringAt 256 tmp token text ∧
    token + text.length ≤ saveptr) tokens.items texts

theorem Kept.congr {next : Buf} {saveptr later : Nat} (kept : Kept tmp saveptr tokens texts)
    (le : saveptr ≤ later) (same : ∀ k ≤ saveptr, next k = tmp k) :
    Kept next later tokens texts := by
  constructor
  · exact kept.size
  · apply kept.texts.imp
    rintro _ _ ⟨holds, before⟩
    constructor
    · exact holds.congr fun k _ upto => same k (Nat.le_trans upto before)
    · exact Nat.le_trans before le

theorem Kept.keepToken {saveptr token : Nat} {text : CStr} (kept : Kept tmp saveptr tokens texts)
    (holds : StringAt 256 tmp token text) (before : token + text.length ≤ saveptr) :
    Kept tmp saveptr (keepToken tokens token text) (mkcanonStep texts text) := by
  simp only [Buffers.keepToken, mkcanonStep]
  by_cases skip : text = [] ∨ text = [46]
  · rw [if_pos skip, if_pos skip]
    exact kept
  · rw [if_neg skip, if_neg skip]
    by_cases up : text = [46, 46]
    · rw [if_pos up, if_pos up]
      have length := kept.texts.length_eq
      have size := kept.size
      cases empty : tokens.items with
      | nil =>
        have isEmpty : texts = [] := by
          apply length_eq_zero_iff.mp
          rw [← length, empty]
          rfl
        have isZero : tokens.size = 0 := by
          rw [size, empty]
          rfl
        rw [if_neg (not_not.mpr isZero), isEmpty]
        rw [isEmpty] at kept
        exact kept
      | cons _ _ =>
        have notZero : tokens.size ≠ 0 := by
          rw [size, empty]
          exact Nat.succ_ne_zero _
        rw [if_pos notZero, KList.popBack, empty]
        constructor
        · rw [size, empty]
          exact (length_dropLast).symm
        · have shorter := forall₂_take (tokens.items.length - 1) kept.texts
          rw [← dropLast_eq_take, length, ← dropLast_eq_take, empty] at shorter
          exact shorter
    · rw [if_neg up, if_neg up]
      constructor
      · rw [KList.enqueue, length_append, ← kept.size]
        rfl
      · exact rel_append kept.texts (.cons ⟨holds, before⟩ .nil)

/-- The loop keeps the components `vfs_mkcanon` keeps. -/
theorem keepTokens_eq (fuel : Nat) {saveptr : Nat} {rest : CStr}
    (holds : StringAt 256 tmp saveptr rest) (kept : Kept tmp saveptr tokens texts)
    (short : rest.length < fuel) :
    ∃ next later result, ((strtokR 256 tmp saveptr [47]).bind fun found =>
        keepTokens found.1 tokens found.2.1 found.2.2 fuel) = some (next, result) ∧
      Kept next later result ((strtokAll [47] fuel rest).foldl mkcanonStep texts) := by
  induction fuel generalizing tmp saveptr rest tokens texts with
  | zero => exact absurd short (Nat.not_lt_zero _)
  | succ fuel ih =>
    rw [strtokAll, strtokR_slash]
    by_cases done : rest.dropWhile (· == 47) = []
    · rcases strtokR_none holds done with ⟨last, called⟩
      rw [called, if_pos done]
      exact ⟨tmp, saveptr, tokens, rfl, kept⟩
    · rcases strtokR_some holds rfl done with
        ⟨next, _, later, called, isToken, before, le, rest', same⟩
      have shorter : (rest.dropWhile (· == 47)).length ≤ rest.length := length_dropWhile_le _ _
      have cut := length_dropWhile_le (· != 47) (rest.dropWhile (· == 47))
      have nonempty := length_pos_iff.mpr done
      have enough : ((rest.dropWhile (· == 47)).dropWhile (· != 47)).tail.length < fuel := by
        rw [length_tail]
        omega
      have keptNext := (kept.congr le same).keepToken isToken before
      rcases ih rest' keptNext enough with ⟨last, final, result, looped, keptResult⟩
      refine ⟨last, final, result, ?_, ?_⟩
      · rw [called, bind_some, keepTokens]
        simp only [isToken.readString_eq]
        exact looped
      · rw [if_neg done]
        exact keptResult

/-! ## The result -/

theorem appendTokens_eq {items : List Nat} {out : Buf} {written : CStr}
    (hold : List.Forall₂ (StringAt 256 tmp) items texts) (holds : StringAt 256 out 0 written)
    (fits : written.length + (joinPath texts).length < 256) :
    ∃ result, items.foldlM (appendToken tmp) out = some result ∧
      StringAt 256 result 0 (written ++ joinPath texts) := by
  induction items generalizing texts out written with
  | nil =>
    cases hold
    exact ⟨out, rfl, by rwa [joinPath_nil, append_nil]⟩
  | cons _ items ih =>
    cases hold with
    | cons isText hold =>
      simp only [joinPath_cons, length_cons, length_append] at fits
      rcases @StringAt.strcat_some _ _ _ _ holds [47] (by decide) (by simp; omega) with
        ⟨_, addsSlash, isSlashed⟩
      rcases isSlashed.strcat_some isText.plain (by simp; omega) with ⟨_, addsName, isNamed⟩
      rcases ih hold isNamed (by simp; omega) with ⟨result, built, isResult⟩
      refine ⟨result, ?_, ?_⟩
      · rw [foldlM_cons, appendToken]
        simp only [addsSlash, isText.readString_eq, addsName, bind_eq_bind, bind_some]
        exact built
      · simpa using isResult

/-- The path `vfs_mkcanon` puts into `tmp`. -/
def fullPath (path : CStr) (work : Option CStr) : CStr :=
  match work with
  | none => path
  | some work => if path.head? = some 47 then path else work ++ 47 :: path

section Mkcanon

variable {tmp out : Buf} {path : CStr} {work : Option CStr}

section

variable (plain : 0 ∉ fullPath path work)
include plain

theorem fillTmp_some (fits : (fullPath path work).length < 256) :
    ∃ next, fillTmp tmp path work = some next ∧ StringAt 256 next 0 (fullPath path work) := by
  have whole : ∀ {s : CStr}, 0 ∉ s → s.length < 256 →
      ∃ next, strcpy 256 tmp 0 s = some next ∧ StringAt 256 next 0 s := by
    intro s plain fits
    rcases @strcpy_some 256 0 tmp s plain (by omega) with ⟨next, copied, holds, _⟩
    exact ⟨next, copied, holds⟩
  unfold fillTmp
  unfold fullPath at plain fits ⊢
  cases work with
  | none => exact whole plain fits
  | some work =>
    dsimp only at plain fits ⊢
    by_cases absolute : path.head? = some 47
    · rw [if_pos absolute] at plain fits ⊢
      rw [if_pos absolute]
      exact whole plain fits
    · rw [if_neg absolute] at plain fits ⊢
      rw [if_neg absolute]
      simp only [mem_append, mem_cons, not_or, length_append, length_cons] at plain fits
      rcases whole plain.1 (by omega) with ⟨_, copied, isFirst⟩
      rcases @StringAt.strcat_some _ _ _ _ isFirst [47] (by decide) (by simp; omega) with
        ⟨_, slashed, isSecond⟩
      rcases isSecond.strcat_some plain.2.2 (by simp; omega) with ⟨third, appended, isThird⟩
      refine ⟨third, ?_, ?_⟩
      · simp only [copied, slashed, appended, bind_eq_bind, bind_some]
      · simpa using isThird

/-- `vfs_mkcanon` leaves the canonical form of the path in `out`. -/
theorem vfsMkcanon_some (rooted : (fullPath path work).head? = some 47)
    (fits : (fullPath path work).length < 256) :
    ∃ result, vfsMkcanon tmp out path work = some result ∧
      StringAt 256 result 0 (canonPath (canonStack (fullPath path work))) := by
  rcases @fillTmp_some tmp path work plain fits with ⟨filled, fills, holds⟩
  have none : Kept filled 0 KList.create [] := ⟨rfl, .nil⟩
  rcases keepTokens_eq 257 holds none (by omega) with ⟨_, _, tokens, looped, kept⟩
  have length := length_canonStack rooted
  rw [strtokAll_pathTokens (by omega), canonStack_eq] at kept
  generalize canonStack (fullPath path work) = stack at kept length ⊢
  rcases bind_eq_some_iff.mp looped with ⟨_, cuts, loops⟩
  have pointed := kept.texts.imp fun _ _ both => both.1
  have sameLength := kept.texts.length_eq
  have empty : StringAt 256 (put out 0 [0]) 0 [] :=
    ⟨rfl, put_inside (i := 0) rfl, by decide, not_mem_nil⟩
  simp only [vfsMkcanon, fills, cuts, loops, bind_eq_bind, bind_some]
  rw [store, if_pos (by decide), bind_some]
  cases stack with
  | nil =>
    have noItems : tokens.items = [] := length_eq_zero_iff.mp sameLength
    have noSize : tokens.size = 0 := kept.size.trans sameLength
    rcases @strcpy_some 256 0 (put out 0 [0]) [47] (by decide) (by decide) with
      ⟨result, copied, isRoot, _⟩
    rw [if_pos noSize, copied, noItems]
    exact ⟨result, rfl, isRoot⟩
  | cons name stack =>
    have notZero : tokens.size ≠ 0 := by
      rw [kept.size, sameLength]
      exact Nat.succ_ne_zero _
    rw [if_neg notZero]
    have room : ([] : CStr).length + (joinPath (name :: stack)).length < 256 := by
      rw [length_nil, Nat.zero_add]
      exact Nat.lt_of_le_of_lt length fits
    have built := appendTokens_eq pointed empty room
    exact built

variable (long : 256 ≤ (fullPath path work).length)
include long

/-- A path that does not fit into `tmp` is written past its end. -/
theorem fillTmp_none : fillTmp tmp path work = none := by
  unfold fillTmp
  unfold fullPath at plain long
  cases work with
  | none => exact strcpy_none (long.trans (Nat.le_add_left _ _))
  | some work =>
    dsimp only at plain long ⊢
    split_ifs at plain long ⊢ with absolute
    · exact strcpy_none (by omega)
    · simp only [mem_append, not_or, length_append, length_cons] at plain long
      -- the first of the three copies that does not fit fails
      by_cases first : work.length < 256
      · rcases @strcpy_some 256 0 tmp work plain.1 (by omega) with ⟨_, copied, isCopy, _⟩
        simp only [copied, bind_eq_bind, bind_some]
        by_cases second : work.length + 1 < 256
        · rcases @StringAt.strcat_some _ _ _ _ isCopy [47] (by decide) (by simp; omega) with
            ⟨_, slashed, isSlash⟩
          simp only [slashed, bind_some]
          rw [isSlash.strcat_eq]
          exact strcpy_none (by simp; omega)
        · rw [isCopy.strcat_eq, strcpy_none (by simp; omega), bind_none]
      · rw [strcpy_none (by omega)]
        rfl

/-- `vfs_mkcanon` writes past the end of `tmp` when the path does not fit. -/
theorem vfsMkcanon_none : vfsMkcanon tmp out path work = none := by
  rw [vfsMkcanon, fillTmp_none plain long]
  rfl

end

theorem fullPath_rooted {work : CStr} (canonical : Canonical work) :
    (fullPath path (some work)).head? = some 47 := by
  simp only [fullPath]
  split_ifs with absolute
  · exact absolute
  · rcases canonical with ⟨_, _, rfl⟩
    rw [head?_append, canonPath_head]
    rfl

theorem length_le_fullPath (path : CStr) (work : Option CStr) :
    path.length ≤ (fullPath path work).length := by
  cases work with
  | none => exact Nat.le_refl _
  | some work =>
    simp only [fullPath]
    split
    · exact Nat.le_refl _
    · rw [length_append, length_cons]
      omega

theorem fullPath_plain {work : CStr} (plainPath : 0 ∉ path) (plainWork : 0 ∉ work) :
    0 ∉ fullPath path (some work) := by
  simp only [fullPath]
  split_ifs with absolute
  · exact plainPath
  · simp [plainPath, plainWork]

/-- The string `vfs_mkcanon` leaves in `out` is canonical, does not depend on the working directory
for an absolute path, and stays as it is when it is given to `vfs_mkcanon`. -/
theorem mkcanon_canonicalises (tmp out : Buf) (path work : CStr) (plainPath : 0 ∉ path)
    (plainWork : 0 ∉ work) (canonical : Canonical work)
    (fits : work.length + 1 + path.length ≤ 255) :
    ∃ result text, vfsMkcanon tmp out path (some work) = some result ∧
      StringAt 256 result 0 text ∧
      text = canonPath (canonStack (fullPath path (some work))) ∧ Canonical text ∧
      (path.head? = some 47 → ∀ other,
        vfsMkcanon tmp out path other = vfsMkcanon tmp out path (some work)) ∧
      ∀ tmp out other, ∃ again, vfsMkcanon tmp out text other = some again ∧
        StringAt 256 again 0 text := by
  have plain := fullPath_plain plainPath plainWork
  have rooted := @fullPath_rooted path _ canonical
  have short : (fullPath path (some work)).length < 256 := by
    simp only [fullPath]
    split
    · omega
    · rw [length_append, length_cons]
      omega
  rcases vfsMkcanon_some plain rooted short with ⟨result, called, holds⟩
  have valid := canonStack_valid (fullPath path (some work))
  have isCanonical : Canonical (canonPath (canonStack (fullPath path (some work)))) :=
    ⟨_, valid, rfl⟩
  refine ⟨result, _, called, holds, rfl, isCanonical, ?_, ?_⟩
  · intro absolute other
    have same : fillTmp tmp path other = fillTmp tmp path (some work) := by
      cases other with
      | none => simp only [fillTmp, if_pos absolute]
      | some other => simp only [fillTmp, if_pos absolute]
    rw [vfsMkcanon, vfsMkcanon, same]
  · intro tmp out other
    have inside := holds.inside
    have isPlain := holds.plain
    generalize canonStack (fullPath path (some work)) = stack at *
    have isFull : fullPath (canonPath stack) other = canonPath stack := by
      cases other with
      | none => rfl
      | some other => exact if_pos (canonPath_head stack)
    have rooted := canonPath_head stack
    rw [← isFull] at rooted inside isPlain
    rcases vfsMkcanon_some isPlain rooted (by omega) with ⟨again, called, holds⟩
    rw [isFull, canonStack_canonPath valid] at holds
    exact ⟨again, called, holds⟩

/-- `a//../b/` in `/c` -/
theorem mkcanon_canonicalises_relative :
    ∃ result text, vfsMkcanon (fun _ => 1) (fun _ => 1) [97, 47, 47, 46, 46, 47, 98, 47]
        (some [47, 99]) = some result ∧ StringAt 256 result 0 text ∧ text = [47, 99, 47, 98] := by
  have canonical : Canonical [47, 99] := by
    refine ⟨[[99]], ?_, rfl⟩
    intro _ member
    rw [mem_singleton.mp member]
    exact ⟨by decide, by decide, by decide, by decide⟩
  rcases mkcanon_canonicalises (fun _ => 1) (fun _ => 1) [97, 47, 47, 46, 46, 47, 98, 47] [47, 99]
    (by decide) (by decide) canonical (by decide) with ⟨result, text, called, holds, isText, _⟩
  exact ⟨result, text, called, holds, isText.trans (by decide)⟩

end Mkcanon

end Buffers

end Micro.Fs
