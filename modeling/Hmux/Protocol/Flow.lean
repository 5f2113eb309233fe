import Mathlib.Algebra.Group.Action.Defs
import Mathlib.Algebra.Order.Ring.Nat
import Mathlib.Algebra.Order.BigOperators.Group.List
import Mathlib.Tactic.Common

namespace Hmux.Flow

/-!
# Rendering credit of one view

`OutputWindow` is the list of frames one side has sent, or handed on, and that the other side
has not acknowledged.  Home keeps one per view and waits for credit before it sends; the
Gateway keeps one per view for the frames its browser has not acknowledged.

* `OutputWindow.Valid` — the invariant: the byte count is the sum of the frames, every frame
  is a legal chunk and there are at most `frames` of them;
* `reserve_eq` — a legal chunk is refused only by a full window;
* `acknowledge_eq` — the oldest frame is acknowledged by its exact size and by nothing else.

The window is a queue of sizes with its sum.  An acknowledgement must name the oldest size exactly,
so the two sides can only lose step when one of them counts a frame that the other does not have;
`Valid` excludes that for one side, and the composition of both is another module's subject.
-/

/-- The largest frame. -/
def chunk : ℕ := 16384

/-- The most frames a window holds. -/
def frames : ℕ := 32

/-- The most bytes a window holds. -/
def bytes : ℕ := chunk * frames

/-- How long the oldest frame may stay unacknowledged, in nanoseconds. -/
def stall : ℕ := 30 * 1000000000

/-- Unacknowledged frames, oldest first: each with its size and the time it was sent. -/
structure OutputWindow where
  frames : List (ℕ × ℕ)
  bytes : ℕ
  deriving DecidableEq, Repr

namespace OutputWindow

/-- `OutputWindow::default`. -/
def empty : OutputWindow := { frames := [], bytes := 0 }

/-- `OutputWindow::reserve`; `none` is the refusal. -/
def reserve (w : OutputWindow) (n now : ℕ) : Option OutputWindow :=
  if n = 0 || chunk < n || Flow.frames ≤ w.frames.length || Flow.bytes - w.bytes < n then none
  else some { frames := w.frames ++ [(n, now)], bytes := w.bytes + n }

/-- `OutputWindow::acknowledge`; `none` is the refusal. -/
def acknowledge (w : OutputWindow) (n : Int64) : Option OutputWindow :=
  match w.frames with
  | [] => none
  | (size, _) :: rest =>
    if n ≠ Int64.ofNat size then none else some { frames := rest, bytes := w.bytes - size }

/-- `OutputWindow::stalled`. -/
def stalled (w : OutputWindow) (now : ℕ) : Bool :=
  match w.frames with
  | [] => false
  | (_, queued) :: _ => stall ≤ now - queued

/-- The sizes of the unacknowledged frames. -/
def sizes (w : OutputWindow) : List ℕ := w.frames.map Prod.fst

/-- What every window keeps. -/
structure Valid (w : OutputWindow) : Prop where
  bytes_eq : w.bytes = w.sizes.sum
  size_le : ∀ n ∈ w.sizes, 0 < n ∧ n ≤ chunk
  length_le : w.sizes.length ≤ Flow.frames

theorem valid_empty : empty.Valid :=
  ⟨rfl, fun _ h => absurd h List.not_mem_nil, Nat.zero_le _⟩

/-- At most `frames` chunks fit in the byte bound, so the bound on frames is the only one
    that refuses a legal chunk. -/
theorem sum_le_of_size_le {l : List ℕ} (h : ∀ n ∈ l, 0 < n ∧ n ≤ chunk) :
    l.sum ≤ l.length * chunk := by
  rw [← smul_eq_mul]
  exact List.sum_le_card_nsmul l chunk fun n hn => (h n hn).2

theorem Valid.bytes_le {w : OutputWindow} (h : w.Valid) : w.bytes ≤ Flow.bytes := by
  rw [h.bytes_eq, Flow.bytes, Nat.mul_comm]
  exact Nat.le_trans (sum_le_of_size_le h.size_le) (Nat.mul_le_mul_right _ h.length_le)

/-- A legal chunk is taken by every window that is not full. -/
theorem reserve_eq {w : OutputWindow} (h : w.Valid) {n now : ℕ} (hn : 0 < n ∧ n ≤ chunk)
    (hlen : w.sizes.length < Flow.frames) :
    w.reserve n now = some { frames := w.frames ++ [(n, now)], bytes := w.bytes + n } := by
  have hbytes : w.bytes ≤ w.sizes.length * chunk := by
    rw [h.bytes_eq]
    exact sum_le_of_size_le h.size_le
  have hroom : w.sizes.length * chunk + chunk ≤ Flow.bytes := by
    rw [← Nat.succ_mul, Flow.bytes, Nat.mul_comm chunk]
    exact Nat.mul_le_mul_right _ hlen
  have hlen' : w.frames.length < Flow.frames := by rwa [sizes, List.length_map] at hlen
  rw [reserve, if_neg]
  simp only [Bool.or_eq_true, decide_eq_true_eq, not_or]
  omega

/-- **Step lemma.** A reservation appends one legal chunk to a window with room. -/
theorem reserve_some {w w' : OutputWindow} {n now : ℕ} (h : w.Valid)
    (hr : w.reserve n now = some w') :
    w'.Valid ∧ w'.sizes = w.sizes ++ [n] ∧ 0 < n ∧ n ≤ chunk := by
  rw [reserve] at hr
  split at hr
  · cases hr
  rename_i hg
  simp only [Bool.or_eq_true, decide_eq_true_eq, not_or] at hg
  injection hr with hr
  subst hr
  have hsizes : (⟨w.frames ++ [(n, now)], w.bytes + n⟩ : OutputWindow).sizes = w.sizes ++ [n] := by
    simp [sizes]
  have hn : 0 < n ∧ n ≤ chunk := by omega
  refine ⟨⟨?_, ?_, ?_⟩, hsizes, hn⟩
  · rw [hsizes, List.sum_append, List.sum_singleton, ← h.bytes_eq]
  · intro m hm
    rw [hsizes, List.mem_append, List.mem_singleton] at hm
    rcases hm with hm | rfl
    · exact h.size_le m hm
    · exact hn
  · rw [hsizes, List.length_append, List.length_singleton, sizes, List.length_map]
    omega

/-- **Step lemma.** An acknowledgement drops the oldest frame, whose size it names. -/
theorem acknowledge_some {w w' : OutputWindow} {n : Int64} (h : w.Valid)
    (hr : w.acknowledge n = some w') :
    w'.Valid ∧ ∃ size, n = Int64.ofNat size ∧ w.sizes = size :: w'.sizes := by
  rw [acknowledge] at hr
  split at hr
  · cases hr
  rename_i size at_ rest heq
  split at hr
  · cases hr
  rename_i hn
  injection hr with hr
  subst hr
  have hsizes : w.sizes = size :: rest.map Prod.fst := by simp [sizes, heq]
  refine ⟨⟨?_, ?_, ?_⟩, size, not_not.mp hn, hsizes⟩
  · have hb := h.bytes_eq
    rw [hsizes, List.sum_cons] at hb
    simp only [sizes]
    omega
  · intro m hm
    exact h.size_le m (hsizes ▸ List.mem_cons_of_mem _ hm)
  · have hl := h.length_le
    rw [hsizes, List.length_cons] at hl
    simp only [sizes]
    omega

/-- The oldest frame is acknowledged by its own size. -/
theorem acknowledge_eq {w : OutputWindow} {size : ℕ} {rest : List ℕ}
    (h : w.sizes = size :: rest) :
    ∃ w', w.acknowledge (Int64.ofNat size) = some w' ∧ w'.sizes = rest := by
  rw [sizes] at h
  obtain ⟨⟨size', at_⟩, tail, heq, rfl, rfl⟩ := List.map_eq_cons_iff.mp h
  refine ⟨{ frames := tail, bytes := w.bytes - size' }, ?_, rfl⟩
  rw [acknowledge, heq]
  exact if_neg (not_not.mpr rfl)

end OutputWindow

end Hmux.Flow
