import Mathlib.Data.Int.Interval
import Mathlib.Order.Interval.Finset.Basic

/-!
Replay protection for numbered messages, in its own terms. A guard remembers
the highest number it has accepted and the set of all numbers it has accepted;
it admits a number that lies within a window around the highest one and was
never accepted. Real receivers keep a bounded table instead of the set: one
tag for each slot, where numbers that share a slot are at least `width` apart.
The table is good enough as long as the window behind the highest number is
narrower than `width`.
-/

namespace LuaMumble.Lib.ReplayWindow

structure Guard where
  head : ℤ
  seen : Finset ℤ

/-- Numbers a receiver at `head` can tell apart: up to `behind` older ones and
up to `ahead` newer ones, the head itself excluded. -/
def InWindow (behind ahead head n : ℤ) : Prop :=
  n ≠ head ∧ head - behind ≤ n ∧ n ≤ head + ahead

def Guard.accept (g : Guard) (n : ℤ) : Guard :=
  ⟨if g.head ≤ n then n else g.head, insert n g.seen⟩

/-- Everything accepted lies above the number the guard started from and at
most at its head. -/
structure Guard.Valid (g : Guard) (base : ℤ) : Prop where
  base_le : base ≤ g.head
  above : ∀ n ∈ g.seen, base < n
  below : ∀ n ∈ g.seen, n ≤ g.head

/-- The numbers between the start and the head that were not accepted: lost,
or still on their way. -/
def Guard.missing (g : Guard) (base : ℤ) : Finset ℤ :=
  (Finset.range (g.head - base).toNat).image (fun k : ℕ => base + k + 1) \ g.seen

theorem Guard.initial_valid (base : ℤ) : (⟨base, ∅⟩ : Guard).Valid base :=
  ⟨le_refl base, by simp, by simp⟩

/-- After accepting, the head is past the old head and the number. -/
theorem Guard.accept_head (g : Guard) (n : ℤ) :
    g.head ≤ (g.accept n).head ∧ n ≤ (g.accept n).head := by
  unfold Guard.accept
  split_ifs with hahead
  · exact ⟨hahead, le_refl n⟩
  · exact ⟨le_refl g.head, (Int.not_le.mp hahead).le⟩

theorem Guard.accept_valid {g : Guard} {base n : ℤ} (h : g.Valid base) (hn : base < n) :
    (g.accept n).Valid base := by
  obtain ⟨hhead, hself⟩ := g.accept_head n
  refine ⟨le_trans h.base_le hhead, ?_, ?_⟩
  · intro m hm
    rcases Finset.mem_insert.mp hm with rfl | hold
    · exact hn
    · exact h.above m hold
  · intro m hm
    rcases Finset.mem_insert.mp hm with rfl | hold
    · exact hself
    · exact le_trans (h.below m hold) hhead

private theorem mem_numbers {base head n : ℤ} :
    n ∈ (Finset.range (head - base).toNat).image (fun k : ℕ => base + k + 1) ↔
      base < n ∧ n ≤ head := by
  simp only [Finset.mem_image, Finset.mem_range]
  constructor
  · rintro ⟨k, hk, rfl⟩
    omega
  · rintro ⟨hlow, hhigh⟩
    exact ⟨(n - base - 1).toNat, by omega, by omega⟩

theorem Guard.mem_missing {g : Guard} {base n : ℤ} :
    n ∈ g.missing base ↔ (base < n ∧ n ≤ g.head) ∧ n ∉ g.seen := by
  rw [Guard.missing, Finset.mem_sdiff, mem_numbers]

/-- Every number up to the head is either accepted or missing. -/
theorem Guard.seen_add_missing {g : Guard} {base : ℤ} (h : g.Valid base) :
    (g.seen.card : ℤ) + (g.missing base).card = g.head - base := by
  have hbase := h.base_le
  have hsubset : g.seen ⊆
      (Finset.range (g.head - base).toNat).image (fun k : ℕ => base + k + 1) := by
    intro n hn
    exact mem_numbers.mpr ⟨h.above n hn, h.below n hn⟩
  have hcard := Finset.card_sdiff_add_card_eq_card hsubset
  have hinjective : Function.Injective (fun k : ℕ => base + k + 1) := by
    intro k m hkm
    dsimp only at hkm
    omega
  rw [Finset.card_image_of_injective _ hinjective, Finset.card_range] at hcard
  unfold Guard.missing
  omega

section Slots

variable {K V : Type*}

/-- The table still holds the tag of every accepted number in the window. -/
def Remembers (behind : ℤ) (slot : ℤ → K) (tag : ℤ → V) (table : K → V) (g : Guard) : Prop :=
  ∀ n ∈ g.seen, g.head - behind ≤ n → table (slot n) = tag n

variable {behind ahead width : ℤ} {slot : ℤ → K} {tag : ℤ → V} {table : K → V} {g : Guard}
  {base n : ℤ}

theorem remembers_initial : Remembers behind slot tag table ⟨base, ∅⟩ := by
  intro n hn
  simp at hn

/-- Writing the slot of an accepted number loses no number still in the window:
another number of that slot is at least `width` away, so it has left it. -/
theorem remembers_accept [DecidableEq K]
    (hslot : ∀ m n, slot m = slot n → |m - n| < width → m = n)
    (hwidth : behind < width) (hvalid : g.Valid base)
    (hwindow : InWindow behind ahead g.head n)
    (h : Remembers behind slot tag table g) :
    Remembers behind slot tag (Function.update table (slot n) (tag n)) (g.accept n) := by
  intro m hm hbehind
  rcases Finset.mem_insert.mp hm with rfl | hold
  · exact Function.update_self ..
  · have hhead : g.head - behind ≤ m :=
      le_trans (Int.sub_le_sub_right (g.accept_head n).1 behind) hbehind
    have hnew : n - behind ≤ m :=
      le_trans (Int.sub_le_sub_right (g.accept_head n).2 behind) hbehind
    have hmhead := hvalid.below m hold
    have hnlow := hwindow.2.1
    by_cases hsame : slot m = slot n
    · have hclose : |m - n| < width := by
        rw [abs_lt]
        constructor <;> omega
      rw [hslot m n hsame hclose, Function.update_self]
    · rw [Function.update_of_ne hsame]
      exact h m hold (by omega)

/-- A number that is ahead of the head, or whose slot does not hold its tag,
was never accepted. -/
theorem not_seen_of_fresh (hvalid : g.Valid base) (hwindow : InWindow behind ahead g.head n)
    (h : Remembers behind slot tag table g)
    (hfresh : n < g.head → table (slot n) ≠ tag n) : n ∉ g.seen := by
  intro hseen
  have hle := hvalid.below n hseen
  have hlt : n < g.head := lt_of_le_of_ne hle hwindow.1
  exact hfresh hlt (h n hseen hwindow.2.1)

end Slots

end LuaMumble.Lib.ReplayWindow
