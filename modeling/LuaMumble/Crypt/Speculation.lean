import LuaMumble.Crypt.Receive

/-!
`crypt_decrypt` as it works on the state in place. It moves `decrypt_iv` before it
knows whether the packet is genuine, in five branches, and puts the saved copy back
at each point where it gives up; `cryptDecrypt` shows only what is left at the end.
-/

namespace LuaMumble.Crypt

open Ocb Lib.LittleEndian

/-- The state during a call of `crypt_decrypt`, with its locals, and what it has done
so far: the IVs that it called `crypt_ocb_decrypt` with and the history entries that it
wrote. -/
structure Frame where
  crypt : MumbleCrypt
  saveiv : Block
  lost : Int
  late : Int
  restore : Bool
  calls : List Block
  writes : List (UInt8 × UInt8)

namespace Frame

def setIv (frame : Frame) (iv : Block) : Frame :=
  { frame with crypt := { frame.crypt with decryptIv := iv } }

/-- `memcpy(crypt->decrypt_iv, saveiv, AES_BLOCK_SIZE)` -/
def putBack (frame : Frame) : Frame :=
  frame.setIv frame.saveiv

/-- `crypt->decrypt_iv[0] = ivbyte` -/
def setFirst (frame : Frame) (ivbyte : UInt8) : Frame :=
  frame.setIv (Crypt.setFirst frame.crypt.decryptIv ivbyte)

/-- The loop that carries into the bytes after the first. -/
def carry (frame : Frame) : Frame :=
  frame.setIv (incrementFrom 1 frame.crypt.decryptIv)

/-- The loop that borrows from the bytes after the first. -/
def borrow (frame : Frame) : Frame :=
  frame.setIv (decrementFrom 1 frame.crypt.decryptIv)

/-- `crypt->decrypt_history[crypt->decrypt_iv[0]] = crypt->decrypt_iv[1]` -/
def remember (frame : Frame) : Frame :=
  let slot := frame.crypt.decryptIv.get 0
  let byte := frame.crypt.decryptIv.get 1
  { frame with
    crypt := { frame.crypt with
      decryptHistory := Function.update frame.crypt.decryptHistory slot byte }
    writes := frame.writes ++ [(slot, byte)] }

def count (frame : Frame) : Frame :=
  { frame with
    crypt := { frame.crypt with
      uiGood := frame.crypt.uiGood + 1
      uiLate := addCounter frame.crypt.uiLate frame.late
      uiLost := addCounter frame.crypt.uiLost frame.lost } }

/-- The lines after the last `return false`. -/
def accept (frame : Frame) : Frame :=
  let frame := frame.remember
  let frame := if frame.restore then frame.putBack else frame
  frame.count

end Frame

/-- The check of a packet out of order against `decrypt_history`. -/
def consultHistory (frame : Frame) : Except Frame Frame :=
  if replayed frame.crypt frame.crypt.decryptIv then .error frame.putBack else .ok frame

/-- `diff`, with its two corrections. -/
def wrappedDiff (ivbyte iv0 : UInt8) : Int :=
  let diff : Int := ivbyte.toNat - iv0.toNat
  if diff > 128 then diff - 256 else if diff < -128 then diff + 256 else diff

/-- The branches on `ivbyte`; `error` is `return false`. -/
def moveInPlace (frame : Frame) (ivbyte : UInt8) : Except Frame Frame :=
  let iv0 := frame.crypt.decryptIv.get 0
  if (iv0.toNat + 1) % 256 = ivbyte.toNat then
    if ivbyte > iv0 then .ok (frame.setFirst ivbyte)
    else if ivbyte < iv0 then .ok (frame.setFirst ivbyte).carry
    else .error frame
  else
    let diff := wrappedDiff ivbyte iv0
    let moved : Except Frame Frame :=
      if ivbyte < iv0 ∧ diff > -30 ∧ diff < 0 then
        .ok ({ frame with late := 1, lost := -1, restore := true }.setFirst ivbyte)
      else if ivbyte > iv0 ∧ diff > -30 ∧ diff < 0 then
        .ok ({ frame with late := 1, lost := -1, restore := true }.setFirst ivbyte).borrow
      else if ivbyte > iv0 ∧ diff > 0 then
        .ok ({ frame with lost := ivbyte.toNat - iv0.toNat - 1 }.setFirst ivbyte)
      else if ivbyte < iv0 ∧ diff > 0 then
        .ok ({ frame with lost := 256 - iv0.toNat + ivbyte.toNat - 1 }.setFirst ivbyte).carry
      else .error frame
    match moved with
    | .error frame => .error frame
    | .ok frame => consultHistory frame

/-- From the call of `crypt_ocb_decrypt` on. -/
def openInPlace (aes : Block → Equiv.Perm Block) (source : List UInt8) (frame : Frame) :
    Except Frame Frame :=
  let iv := frame.crypt.decryptIv
  let frame := { frame with calls := frame.calls ++ [iv] }
  if opens (aes frame.crypt.rawKey) source iv then .ok frame.accept
  else .error frame.putBack

def enter (crypt : MumbleCrypt) : Frame where
  crypt := crypt
  saveiv := crypt.decryptIv
  lost := 0
  late := 0
  restore := false
  calls := []
  writes := []

/-- `crypt_decrypt`: the frame at its return, an `error` where it returns false. -/
def cryptDecryptInPlace (aes : Block → Equiv.Perm Block) (crypt : MumbleCrypt)
    (source : List UInt8) : Except Frame Frame :=
  if source.length < 4 then .error (enter crypt)
  else
    match moveInPlace (enter crypt) (ivByte source) with
    | .error frame => .error frame
    | .ok frame => openInPlace aes source frame

/-- The frame at the return, whatever was returned. -/
def returned (result : Except Frame Frame) : Frame :=
  match result with
  | .error frame => frame
  | .ok frame => frame

/-- A frame in which the IV has been moved as a guess says. -/
def guessed (crypt : MumbleCrypt) (guess : IvGuess) : Frame where
  crypt := { crypt with decryptIv := guess.iv }
  saveiv := crypt.decryptIv
  lost := guess.lost
  late := guess.late
  restore := guess.restore
  calls := []
  writes := []

section Guess

variable (crypt : MumbleCrypt)

theorem consultHistory_guessed (guess : IvGuess) (horder : guess.outOfOrder = true) :
    consultHistory (guessed crypt guess) =
      if guess.outOfOrder && replayed crypt guess.iv then .error (guessed crypt guess).putBack
      else .ok (guessed crypt guess) := by
  rw [horder, Bool.true_and]
  rfl

/-- The branches move the IV as the guess of `guessIv` says, and where the history
rejects it they have put it back. -/
theorem moveInPlace_enter (ivbyte : UInt8) :
    moveInPlace (enter crypt) ivbyte =
      match guessIv crypt.decryptIv ivbyte with
      | none => .error (enter crypt)
      | some guess =>
          if guess.outOfOrder && replayed crypt guess.iv then .error (guessed crypt guess).putBack
          else .ok (guessed crypt guess) := by
  have hdiff : (if (ivbyte.toNat : Int) - (crypt.decryptIv.get 0).toNat > 128 then
      (ivbyte.toNat : Int) - (crypt.decryptIv.get 0).toNat - 256
    else if (ivbyte.toNat : Int) - (crypt.decryptIv.get 0).toNat < -128 then
      (ivbyte.toNat : Int) - (crypt.decryptIv.get 0).toNat + 256
    else (ivbyte.toNat : Int) - (crypt.decryptIv.get 0).toNat) =
      wrappedDiff ivbyte (crypt.decryptIv.get 0) := rfl
  have henter : enter crypt = ⟨crypt, crypt.decryptIv, 0, 0, false, [], []⟩ := rfl
  rw [henter]
  simp only [moveInPlace, guessIv, hdiff]
  split_ifs
  · rfl
  · rfl
  · rfl
  · exact consultHistory_guessed crypt ⟨_, -1, 1, true, true⟩ rfl
  · exact consultHistory_guessed crypt ⟨_, -1, 1, true, true⟩ rfl
  · exact consultHistory_guessed crypt ⟨_, _, 0, false, true⟩ rfl
  · exact consultHistory_guessed crypt ⟨_, _, 0, false, true⟩ rfl
  · rfl

/-- The frame in which a genuine packet leaves the function. -/
def opened (guess : IvGuess) : Frame where
  crypt := { crypt with
    decryptHistory := Function.update crypt.decryptHistory (guess.iv.get 0) (guess.iv.get 1)
    decryptIv := if guess.restore then crypt.decryptIv else guess.iv
    uiGood := crypt.uiGood + 1
    uiLate := addCounter crypt.uiLate guess.late
    uiLost := addCounter crypt.uiLost guess.lost }
  saveiv := crypt.decryptIv
  lost := guess.lost
  late := guess.late
  restore := guess.restore
  calls := [guess.iv]
  writes := [(guess.iv.get 0, guess.iv.get 1)]

variable (aes : Block → Equiv.Perm Block) (source : List UInt8)

theorem accept_guessed (guess : IvGuess) :
    { guessed crypt guess with calls := [guess.iv] }.accept = opened crypt guess := by
  obtain ⟨iv, lost, late, restore, outOfOrder⟩ := guess
  cases restore with
  | true => rfl
  | false => rfl

theorem openInPlace_guessed (guess : IvGuess) :
    openInPlace aes source (guessed crypt guess) =
      if opens (aes crypt.rawKey) source guess.iv then .ok (opened crypt guess)
      else .error { (guessed crypt guess).putBack with calls := [guess.iv] } := by
  rw [← accept_guessed]
  rfl

/-- The whole call: two points at which a moved IV is put back, and the return of a
genuine packet. -/
theorem cryptDecryptInPlace_of_guess {source : List UInt8} {guess : IvGuess}
    (hlength : 4 ≤ source.length)
    (hguess : guessIv crypt.decryptIv (ivByte source) = some guess) :
    cryptDecryptInPlace aes crypt source =
      if guess.outOfOrder && replayed crypt guess.iv then .error (guessed crypt guess).putBack
      else if opens (aes crypt.rawKey) source guess.iv then .ok (opened crypt guess)
      else .error { (guessed crypt guess).putBack with calls := [guess.iv] } := by
  rw [cryptDecryptInPlace, if_neg (Nat.not_lt.mpr hlength), moveInPlace_enter, hguess]
  dsimp only
  by_cases hreplay : (guess.outOfOrder && replayed crypt guess.iv) = true
  · rw [if_pos hreplay, if_pos hreplay]
  · rw [if_neg hreplay, if_neg hreplay]
    exact openInPlace_guessed crypt aes source guess

theorem cryptDecryptInPlace_of_none {source : List UInt8}
    (h : source.length < 4 ∨ guessIv crypt.decryptIv (ivByte source) = none) :
    cryptDecryptInPlace aes crypt source = .error (enter crypt) := by
  rw [cryptDecryptInPlace]
  split
  · rfl
  · rename_i hlength
    rw [moveInPlace_enter, h.resolve_left hlength]

end Guess

/-- What is left of the state, and what is returned, is what `cryptDecrypt` says. -/
theorem inPlace_refines (aes : Block → Equiv.Perm Block) (crypt : MumbleCrypt)
    (source : List UInt8) :
    (returned (cryptDecryptInPlace aes crypt source)).crypt = (cryptDecrypt aes crypt source).2 ∧
      (cryptDecryptInPlace aes crypt source).isOk = (cryptDecrypt aes crypt source).1.isSome := by
  by_cases hlength : source.length < 4
  · rw [cryptDecryptInPlace_of_none crypt aes (Or.inl hlength), cryptDecrypt, if_pos hlength]
    exact ⟨rfl, rfl⟩
  · cases hguess : guessIv crypt.decryptIv (ivByte source) with
    | none =>
        rw [cryptDecryptInPlace_of_none crypt aes (Or.inr hguess), cryptDecrypt, if_neg hlength]
        unfold ivByte at hguess
        rw [hguess]
        exact ⟨rfl, rfl⟩
    | some guess =>
        rw [cryptDecryptInPlace_of_guess crypt aes (Nat.not_lt.mp hlength) hguess, cryptDecrypt,
          if_neg hlength]
        unfold ivByte at hguess
        rw [hguess]
        dsimp only
        split
        · exact ⟨rfl, rfl⟩
        · cases hopens : opens (aes crypt.rawKey) source guess.iv with
          | true => exact ⟨rfl, rfl⟩
          | false => exact ⟨rfl, rfl⟩

/-- A packet that is turned down leaves every member of the state as it was. One that is
taken either leaves the IV where it was, being late, or moves it on by 1 to 128, and it
writes one entry of the history. -/
theorem rejected_unchanged_accepted_advances (aes : Block → Equiv.Perm Block)
    (crypt : MumbleCrypt) (source : List UInt8) :
    match cryptDecryptInPlace aes crypt source with
    | .error frame => frame.crypt = crypt ∧ frame.writes = []
    | .ok frame =>
        (frame.late = 1 ∧ frame.crypt.decryptIv = crypt.decryptIv ∨
          ∃ d : ℕ, 1 ≤ d ∧ d ≤ 128 ∧
            counter frame.crypt.decryptIv = counter crypt.decryptIv + (d : ZMod (2 ^ 128))) ∧
        ∃ slot byte, frame.writes = [(slot, byte)] ∧
          frame.crypt.decryptHistory = Function.update crypt.decryptHistory slot byte := by
  by_cases hlength : source.length < 4
  · rw [cryptDecryptInPlace_of_none crypt aes (Or.inl hlength)]
    exact ⟨rfl, rfl⟩
  · cases hd : ivDistance (crypt.decryptIv.get 0) (ivByte source) with
    | none =>
        have hguess : guessIv crypt.decryptIv (ivByte source) = none := by
          rw [guessIv_eq, hd, Option.map_none]
        rw [cryptDecryptInPlace_of_none crypt aes (Or.inr hguess)]
        exact ⟨rfl, rfl⟩
    | some d =>
        have hguess : guessIv crypt.decryptIv (ivByte source) =
            some (guessAt crypt.decryptIv (ivByte source) d) := by
          rw [guessIv_eq, hd, Option.map_some]
        rw [cryptDecryptInPlace_of_guess crypt aes (Nat.not_lt.mp hlength) hguess]
        split_ifs
        · exact ⟨rfl, rfl⟩
        · refine ⟨?_, _, _, rfl, rfl⟩
          obtain ⟨hne, hlow, hhigh⟩ := ivDistance_bounds hd
          have hmoved := counter_moveIv hd
          by_cases hlate : d < 0
          · rw [guessAt_late _ _ hlate]
            exact Or.inl ⟨rfl, rfl⟩
          · obtain ⟨n, rfl⟩ := Int.eq_ofNat_of_zero_le (not_lt.mp hlate)
            refine Or.inr ⟨n, by omega, by omega, ?_⟩
            simpa [opened, guessAt, hlate] using hmoved
        · exact ⟨rfl, rfl⟩

/-- Every IV within reach of the receiver is rebuilt from its low byte: unless the history
turns the packet down before, that IV is the one `crypt_ocb_decrypt` is called with, and the
changes of the counters say how far it lies behind or ahead. -/
theorem decrypts_under_sent_iv (aes : Block → Equiv.Perm Block) (crypt : MumbleCrypt)
    (source : List UInt8) (v : Block) (d : ℤ)
    (hwindow : -29 ≤ d ∧ d ≤ -1 ∨ 1 ≤ d ∧ d ≤ 127)
    (hv : counter v = counter crypt.decryptIv + (d : ZMod (2 ^ 128)))
    (hlength : 4 ≤ source.length) (hbyte : (ivByte source).toNat = (counter v).val % 256) :
    let frame := returned (cryptDecryptInPlace aes crypt source)
    (frame.calls = if d ≠ 1 ∧ replayed crypt v = true then [] else [v]) ∧
      (frame.late, frame.lost) = if d < 0 then (1, -1) else (0, d - 1) := by
  obtain ⟨hdistance, hmove⟩ := ivDistance_of_counter hwindow hv
  have hfirst : ivByte source = v.get 0 := by
    apply UInt8.toNat_inj.mp
    rw [hbyte, get_zero_eq]
  have hguess : guessIv crypt.decryptIv (ivByte source) =
      some (guessAt crypt.decryptIv (v.get 0) d) := by
    rw [guessIv_eq, hfirst, hdistance, Option.map_some]
  have hiv : (guessAt crypt.decryptIv (v.get 0) d).iv = v := hmove
  have hcounters : ((guessAt crypt.decryptIv (v.get 0) d).late,
      (guessAt crypt.decryptIv (v.get 0) d).lost) = if d < 0 then (1, -1) else (0, d - 1) := by
    by_cases hlate : d < 0
    · rw [guessAt_late _ _ hlate, if_pos hlate]
    · simp [guessAt, hlate]
  have horder : (guessAt crypt.decryptIv (v.get 0) d).outOfOrder = decide (d ≠ 1) := rfl
  intro frame
  simp only [frame]
  rw [cryptDecryptInPlace_of_guess crypt aes hlength hguess, hiv, horder]
  by_cases hreplay : d ≠ 1 ∧ replayed crypt v = true
  · rw [if_pos hreplay, if_pos (by simpa using hreplay)]
    exact ⟨rfl, hcounters⟩
  · rw [if_neg hreplay, if_neg (by simpa using hreplay)]
    split
    · exact ⟨congrArg (fun iv => [iv]) hiv, hcounters⟩
    · exact ⟨rfl, hcounters⟩

/-- A late packet from before the IV wrapped: from all zero bytes back to all ones. -/
def beforeWrap : Block :=
  moveIv cryptInit.decryptIv 255 (-1)

theorem decrypts_beforeWrap :
    let frame := returned (cryptDecryptInPlace (fun _ => Equiv.refl Block) cryptInit [255, 1, 2, 3])
    beforeWrap.bytes = List.replicate 16 255 ∧ (frame.calls = [beforeWrap]) ∧
      (frame.late, frame.lost) = (1, -1) := by
  have hdistance : ivDistance (cryptInit.decryptIv.get 0) 255 = some (-1) := by decide
  have hbyte : (ivByte [255, 1, 2, 3]).toNat = (counter beforeWrap).val % 256 := by
    rw [← get_zero_eq]
    decide
  exact ⟨by decide, decrypts_under_sent_iv (fun _ => Equiv.refl Block) cryptInit [255, 1, 2, 3]
    beforeWrap (-1) (by decide) (counter_moveIv hdistance) (by decide) hbyte⟩

end LuaMumble.Crypt
