import Mathlib.Data.List.TakeWhile

/-!
`strtok` on the bytes of a C string. A call passes over separators, finds the token behind them, and
where the token ends with a separator it writes a NUL there. Calls one after the other find
the components of the string that are not empty, and leave their NULs in it.
-/

namespace LuaMumble.Lib.Tokens

/-- What a call makes of the bytes that are left: those that it has passed, as they are now, the
token if there is one, and those behind. -/
structure Found where
  passed : List UInt8
  token : Option (List UInt8)
  left : List UInt8

/-- The byte is part of a token. -/
def inToken (sep : UInt8 → Bool) (byte : UInt8) : Bool := byte != 0 && !sep byte

def strtok (sep : UInt8 → Bool) (left : List UInt8) : Found :=
  let skipped := left.takeWhile sep
  let start := left.dropWhile sep
  let token := start.takeWhile (inToken sep)
  if token.isEmpty then ⟨skipped, none, start⟩
  else
    match start.dropWhile (inToken sep) with
    | [] => ⟨skipped ++ token, some token, []⟩
    | byte :: behind =>
        if byte = 0 then ⟨skipped ++ token, some token, byte :: behind⟩
        else ⟨skipped ++ token ++ [0], some token, behind⟩

/-- A loop over the tokens, which goes on as long as its body gives a state, with the bytes of the
string behind it. The number bounds the turns. -/
def loop {S : Type} (sep : UInt8 → Bool) (body : S → List UInt8 → Option S) :
    Nat → S → List UInt8 → List UInt8 → Option S × List UInt8
  | 0, s, passed, left => (some s, passed ++ left)
  | turns + 1, s, passed, left =>
      let found := strtok sep left
      match found.token with
      | none => (some s, passed ++ found.passed ++ found.left)
      | some token =>
          match body s token with
          | none => (none, passed ++ found.passed ++ found.left)
          | some s' => loop sep body turns s' (passed ++ found.passed) found.left

/-- The components of the string that are not empty. -/
def components (sep : UInt8 → Bool) (bytes : List UInt8) : List (List UInt8) :=
  ((bytes.takeWhile (· != 0)).splitOnP sep).filter fun component => !component.isEmpty

/-- Behind the separators at its beginning, the string has no separator. -/
def OneToken (sep : UInt8 → Bool) (bytes : List UInt8) : Prop :=
  ∀ byte ∈ (bytes.dropWhile sep).takeWhile (· != 0), sep byte = false

/-- The cases of a call: there is nothing but separators, or the token is the last one, or a
separator ends it. -/
inductive Cases (sep : UInt8 → Bool) (left : List UInt8) : Found → Prop where
  | nothing (skipped start : List UInt8) (hskipped : ∀ byte ∈ skipped, sep byte = true)
      (hleft : left = skipped ++ start) (hstart : start = [] ∨ start.head? = some 0) :
      Cases sep left ⟨skipped, none, start⟩
  | last (skipped token behind : List UInt8) (hskipped : ∀ byte ∈ skipped, sep byte = true)
      (hne : token ≠ []) (htoken : ∀ byte ∈ token, inToken sep byte = true)
      (hleft : left = skipped ++ token ++ behind) (hbehind : behind = [] ∨ behind.head? = some 0) :
      Cases sep left ⟨skipped ++ token, some token, behind⟩
  | ended (skipped token : List UInt8) (byte : UInt8) (behind : List UInt8)
      (hskipped : ∀ byte ∈ skipped, sep byte = true) (hne : token ≠ [])
      (htoken : ∀ byte ∈ token, inToken sep byte = true)
      (hleft : left = skipped ++ token ++ byte :: behind) (hbyte : byte ≠ 0)
      (hsep : sep byte = true) :
      Cases sep left ⟨skipped ++ token ++ [0], some token, behind⟩

section Strtok

variable {sep : UInt8 → Bool}

/-- The first byte that a test does not hold of. -/
theorem dropWhile_cases (p : UInt8 → Bool) (bytes : List UInt8) :
    bytes.dropWhile p = [] ∨
      ∃ byte behind, bytes.dropWhile p = byte :: behind ∧ p byte = false := by
  cases hdrop : bytes.dropWhile p with
  | nil => exact .inl rfl
  | cons byte behind =>
      have hhead := List.head?_dropWhile_not p bytes
      rw [hdrop] at hhead
      exact .inr ⟨byte, behind, rfl, hhead⟩

variable (sep) in
theorem strtok_cases (left : List UInt8) : Cases sep left (strtok sep left) := by
  have hskipped : ∀ byte ∈ left.takeWhile sep, sep byte = true := by
    intro byte hbyte
    exact List.mem_takeWhile_imp hbyte
  have htoken : ∀ byte ∈ (left.dropWhile sep).takeWhile (inToken sep),
      inToken sep byte = true := by
    intro byte hbyte
    exact List.mem_takeWhile_imp hbyte
  have hleft : left = left.takeWhile sep ++ left.dropWhile sep :=
    List.takeWhile_append_dropWhile.symm
  have hsplit : left.dropWhile sep = (left.dropWhile sep).takeWhile (inToken sep) ++
      (left.dropWhile sep).dropWhile (inToken sep) := List.takeWhile_append_dropWhile.symm
  have hwhole : left = left.takeWhile sep ++ (left.dropWhile sep).takeWhile (inToken sep) ++
      (left.dropWhile sep).dropWhile (inToken sep) := by
    rw [List.append_assoc, ← hsplit]
    exact hleft
  unfold strtok
  simp only
  split_ifs with hempty
  · rw [List.isEmpty_iff] at hempty
    refine .nothing _ _ hskipped hleft ?_
    rcases dropWhile_cases sep left with hnil | ⟨byte, behind, hdrop, hsep⟩
    · exact .inl hnil
    · right
      rw [hdrop] at hempty ⊢
      by_contra hbyte
      have hin : inToken sep byte = true := by
        simp only [List.head?_cons, Option.some.injEq] at hbyte
        simp [inToken, hsep, hbyte]
      rw [List.takeWhile_cons_of_pos hin] at hempty
      cases hempty
  · rw [List.isEmpty_iff] at hempty
    rcases dropWhile_cases (inToken sep) (left.dropWhile sep) with
      hnil | ⟨byte, behind, hdrop, hout⟩
    · rw [hnil] at hwhole ⊢
      exact .last _ _ [] hskipped hempty htoken hwhole (.inl rfl)
    · rw [hdrop] at hwhole ⊢
      simp only
      split_ifs with hbyte
      · subst hbyte
        exact .last _ _ _ hskipped hempty htoken hwhole (.inr rfl)
      · have hsep : sep byte = true := by
          simpa [inToken, hbyte] using hout
        exact .ended _ _ byte _ hskipped hempty htoken hwhole hbyte hsep

variable (sep) in
/-- A call keeps the number of the bytes, and it shortens what is left if there is a token. -/
theorem strtok_length (left : List UInt8) :
    (strtok sep left).passed.length + (strtok sep left).left.length = left.length ∧
      ((strtok sep left).token.isSome = true → (strtok sep left).left.length < left.length) := by
  have hcases := strtok_cases sep left
  generalize strtok sep left = found at hcases ⊢
  cases hcases with
  | nothing skipped start hskipped hleft hstart =>
      subst hleft
      simp
  | last skipped token behind hskipped hne htoken hleft hbehind =>
      subst hleft
      have hpos := List.length_pos_iff.mpr hne
      simp only [List.length_append, true_imp_iff, true_and, Option.isSome_some]
      omega
  | ended skipped token byte behind hskipped hne htoken hleft hbyte hsep =>
      subst hleft
      simp only [List.length_append, List.length_cons, List.length_nil, Option.isSome_some,
        true_imp_iff]
      omega

theorem takeWhile_token (token bytes : List UInt8)
    (htoken : ∀ byte ∈ token, inToken sep byte = true) :
    (token ++ bytes).takeWhile (· != 0) = token ++ bytes.takeWhile (· != 0) := by
  apply List.takeWhile_append_of_pos
  intro byte hbyte
  have hin := htoken byte hbyte
  rw [inToken, Bool.and_eq_true] at hin
  exact hin.1

theorem takeWhile_end {bytes : List UInt8} (h : bytes = [] ∨ bytes.head? = some 0) :
    bytes.takeWhile (· != 0) = [] := by
  rcases h with rfl | hhead
  · rfl
  · cases bytes with
    | nil => rfl
    | cons byte rest =>
        obtain rfl : byte = 0 := Option.some.inj hhead
        rfl

/-- No byte of a token is a separator. -/
theorem sep_of_mem_token {token : List UInt8} (htoken : ∀ byte ∈ token, inToken sep byte = true) :
    ∀ byte ∈ token, sep byte = false := by
  intro byte hbyte
  have hin := htoken byte hbyte
  rw [inToken, Bool.and_eq_true, Bool.not_eq_true'] at hin
  exact hin.2

variable (hnul : sep 0 = false)
include hnul

/-- Separators at the beginning make no component. -/
theorem components_skip (skipped bytes : List UInt8)
    (hskipped : ∀ byte ∈ skipped, sep byte = true) :
    components sep (skipped ++ bytes) = components sep bytes := by
  induction skipped with
  | nil => rfl
  | cons byte rest ih =>
      have hsep := hskipped byte (List.mem_cons_self ..)
      have hbyte : (byte != 0) = true := by
        rw [bne_iff_ne]
        rintro rfl
        rw [hnul] at hsep
        cases hsep
      have hrest := ih fun other hother => hskipped other (List.mem_cons_of_mem _ hother)
      rw [components] at hrest
      rw [components, List.cons_append, List.takeWhile_cons_of_pos (by simpa using hbyte),
        List.splitOnP_cons_eq_if_modifyHead, if_pos hsep]
      simpa using hrest

/-- The components are the tokens of the calls. -/
theorem components_eq (left : List UInt8) :
    components sep left =
      match (strtok sep left).token with
      | none => []
      | some token => token :: components sep (strtok sep left).left := by
  have hcases := strtok_cases sep left
  generalize strtok sep left = found at hcases ⊢
  cases hcases with
  | nothing skipped start hskipped hleft hstart =>
      subst hleft
      rw [components_skip hnul skipped start hskipped, components, takeWhile_end hstart]
      rfl
  | last skipped token behind hskipped hne htoken hleft hbehind =>
      subst hleft
      rw [List.append_assoc, components_skip hnul skipped _ hskipped, components,
        takeWhile_token token behind htoken, takeWhile_end hbehind, List.append_nil,
        List.splitOnP_eq_singleton (sep_of_mem_token htoken), components, takeWhile_end hbehind]
      simp [hne]
  | ended skipped token byte behind hskipped hne htoken hleft hbyte hsep =>
      subst hleft
      rw [List.append_assoc, components_skip hnul skipped _ hskipped, components,
        takeWhile_token token _ htoken,
        List.takeWhile_cons_of_pos (by simpa using hbyte),
        List.splitOnP_append_cons_of_forall_mem (sep_of_mem_token htoken) byte hsep]
      simp [hne, components]

end Strtok

section Loop

variable {S : Type} {sep : UInt8 → Bool} {body : S → List UInt8 → Option S}

variable (sep body) in
/-- With enough turns, the loop is a fold over the components, which ends where its body gives
nothing. -/
theorem loop_fst (hnul : sep 0 = false) (turns : Nat) (s : S) (passed left : List UInt8)
    (hturns : left.length < turns) :
    (loop sep body turns s passed left).1 = (components sep left).foldlM body s := by
  induction turns generalizing s passed left with
  | zero => exact absurd hturns (Nat.not_lt_zero _)
  | succ turns ih =>
      have hlength := (strtok_length sep left).2
      rw [loop, components_eq hnul]
      cases htoken : (strtok sep left).token with
      | none => rfl
      | some token =>
          simp only [List.foldlM_cons]
          cases hbody : body s token with
          | none => rfl
          | some s' =>
              rw [htoken] at hlength
              exact ih s' _ _ (by have := hlength rfl; omega)

variable (sep body) in
/-- The loop leaves what it has passed, and the number of the bytes. -/
theorem loop_snd (turns : Nat) (s : S) (passed left : List UInt8) :
    ∃ behind, (loop sep body turns s passed left).2 = passed ++ behind ∧
      behind.length = left.length := by
  induction turns generalizing s passed left with
  | zero => exact ⟨left, rfl, rfl⟩
  | succ turns ih =>
      have hlength := (strtok_length sep left).1
      have hhere : ∃ behind, passed ++ (strtok sep left).passed ++ (strtok sep left).left =
          passed ++ behind ∧ behind.length = left.length :=
        ⟨_, List.append_assoc .., by rw [List.length_append, hlength]⟩
      rw [loop]
      split
      · exact hhere
      · split
        · exact hhere
        · obtain ⟨behind, hloop, hbehind⟩ := ih _ (passed ++ (strtok sep left).passed)
            (strtok sep left).left
          refine ⟨(strtok sep left).passed ++ behind, ?_, ?_⟩
          · rw [hloop, List.append_assoc]
          · rw [List.length_append, hbehind, hlength]

theorem dropWhile_end (hnul : sep 0 = false) {left : List UInt8}
    (h : left = [] ∨ left.head? = some 0) : left.dropWhile sep = left := by
  rcases h with rfl | hhead
  · rfl
  · cases left with
    | nil => rfl
    | cons byte rest =>
        obtain rfl : byte = 0 := Option.some.inj hhead
        rw [List.dropWhile_cons_of_neg (by simp [hnul])]

/-- At the end of the string, a call finds nothing. -/
theorem loop_of_end (hnul : sep 0 = false) (turns : Nat) (s : S) (passed : List UInt8)
    {left : List UInt8} (h : left = [] ∨ left.head? = some 0) :
    (loop sep body turns s passed left).2 = passed ++ left := by
  have hcall : strtok sep left = ⟨[], none, left⟩ := by
    rcases h with rfl | hhead
    · rfl
    · cases left with
      | nil => cases hhead
      | cons byte rest =>
          obtain rfl : byte = 0 := Option.some.inj hhead
          simp [strtok, hnul, inToken]
  cases turns with
  | zero => rfl
  | succ turns =>
      rw [loop, hcall]
      simp only [List.append_nil]

/-- What stands behind the separators at the beginning. -/
theorem dropWhile_skip {skipped : List UInt8} (bytes : List UInt8)
    (hskipped : ∀ byte ∈ skipped, sep byte = true) :
    (skipped ++ bytes).dropWhile sep = bytes.dropWhile sep := by
  rw [List.dropWhile_append, if_pos]
  rw [List.isEmpty_iff, List.dropWhile_eq_nil_iff]
  exact hskipped

theorem dropWhile_token {token : List UInt8} (bytes : List UInt8) (hne : token ≠ [])
    (htoken : ∀ byte ∈ token, inToken sep byte = true) :
    (token ++ bytes).dropWhile sep = token ++ bytes := by
  cases token with
  | nil => exact absurd rfl hne
  | cons byte rest =>
      have hsep := sep_of_mem_token htoken byte (List.mem_cons_self ..)
      rw [List.cons_append, List.dropWhile_cons_of_neg (by simp [hsep])]

/-- What stands behind the first token decides. -/
theorem oneToken_iff {skipped token : List UInt8} (behind : List UInt8)
    (hskipped : ∀ byte ∈ skipped, sep byte = true) (hne : token ≠ [])
    (htoken : ∀ byte ∈ token, inToken sep byte = true) :
    OneToken sep (skipped ++ token ++ behind) ↔
      ∀ byte ∈ behind.takeWhile (· != 0), sep byte = false := by
  rw [OneToken, List.append_assoc, dropWhile_skip _ hskipped, dropWhile_token _ hne htoken,
    takeWhile_token token behind htoken, List.forall_mem_append]
  exact and_iff_right (sep_of_mem_token htoken)

variable (sep body) in
/-- The loop leaves the bytes as they are, if and only if no separator ends the first token. -/
theorem loop_snd_eq_iff (hnul : sep 0 = false) (turns : Nat) (s : S) (left : List UInt8) :
    (loop sep body (turns + 1) s [] left).2 = left ↔ OneToken sep left := by
  have hcases := strtok_cases sep left
  rw [loop]
  generalize strtok sep left = found at hcases ⊢
  cases hcases with
  | nothing skipped start hskipped hleft hstart =>
      subst hleft
      refine iff_of_true (List.nil_append _) ?_
      rw [OneToken, dropWhile_skip start hskipped, dropWhile_end hnul hstart,
        takeWhile_end hstart]
      exact fun byte hbyte => absurd hbyte List.not_mem_nil
  | last skipped token behind hskipped hne htoken hleft hbehind =>
      subst hleft
      refine iff_of_true ?_ ?_
      · simp only [List.nil_append]
        cases body s token with
        | none => rfl
        | some s' => exact loop_of_end hnul turns s' _ hbehind
      · rw [oneToken_iff behind hskipped hne htoken, takeWhile_end hbehind]
        exact fun byte hbyte => absurd hbyte List.not_mem_nil
  | ended skipped token byte behind hskipped hne htoken hleft hbyte hsep =>
      subst hleft
      refine iff_of_false ?_ ?_
      · intro hsame
        have hwritten : ∃ rest, skipped ++ token ++ byte :: behind =
            skipped ++ token ++ [0] ++ rest := by
          simp only [List.nil_append] at hsame
          cases hbody : body s token with
          | none =>
              rw [hbody] at hsame
              exact ⟨behind, hsame.symm⟩
          | some s' =>
              rw [hbody] at hsame
              obtain ⟨rest, hloop, -⟩ :=
                loop_snd sep body turns s' (skipped ++ token ++ [0]) behind
              exact ⟨rest, hsame.symm.trans hloop⟩
        obtain ⟨rest, hrest⟩ := hwritten
        rw [List.append_assoc (skipped ++ token) [0] rest] at hrest
        exact hbyte (List.cons.inj (List.append_cancel_left hrest)).1
      · intro hone
        rw [oneToken_iff _ hskipped hne htoken,
          List.takeWhile_cons_of_pos (by simpa using hbyte)] at hone
        have hnosep := hone byte (List.mem_cons_self ..)
        rw [hsep] at hnosep
        cases hnosep

end Loop

end LuaMumble.Lib.Tokens
