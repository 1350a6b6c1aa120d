/-
Far2l.NetRocks.BaseTransport — `BaseTransport::Send` of
`NetRocks/src/Protocol/FTP/FTPConnection.cpp`.

A transport is known by what its calls of `SendImpl` return, one after another: a
count of bytes, or something that is not positive where it fails. Every call is
offered the block from its beginning, so what a call accepts is the beginning of
the block.
-/
import Mathlib.Order.Monotone.Basic
import Far2l.Utils.Chars

namespace Far2l.NetRocks.Transport

/-! ## The loop -/

/-- How a call of `Send` ends, with the bytes that the transport accepted. -/
inductive Outcome where
  | returned (accepted : List Byte)
  | thrown (accepted : List Byte)
  deriving DecidableEq, Repr

/-- The loop of `Send`. `transferred` bytes are counted, and the next call of `SendImpl` is number `i`. -/
def sendLoop (data : List Byte) (sendImpl : Nat → Int) (i transferred : Nat) (accepted : List Byte) : Outcome :=
  if transferred < data.length then
    if sendImpl i ≤ 0 then .thrown accepted
    else
      sendLoop data sendImpl (i + 1) (transferred + (sendImpl i).toNat) (accepted ++ data.take (sendImpl i).toNat)
  else .returned accepted
termination_by data.length - transferred
decreasing_by omega

/-- `Send` -/
def send (data : List Byte) (sendImpl : Nat → Int) : Outcome := sendLoop data sendImpl 0 0 []

/-! ## Counts -/

variable {data : List Byte} {sendImpl : Nat → Int}

/-- The bytes that the first `k` calls have counted. -/
def counted (sendImpl : Nat → Int) : Nat → Nat
  | 0 => 0
  | k + 1 => counted sendImpl k + (sendImpl k).toNat

/-- The call due at `counted k` takes what is left at most, and what is due there reads like the
beginning of the block. -/
def InStep (data : List Byte) (sendImpl : Nat → Int) (k : Nat) : Prop :=
  counted sendImpl (k + 1) ≤ data.length ∧
    (data.drop (counted sendImpl k)).take (sendImpl k).toNat = data.take (sendImpl k).toNat

/-- Every call accepts at least one byte, and at most what it was offered. -/
def Fits (data : List Byte) (sendImpl : Nat → Int) : Prop :=
  data ≠ [] → ∀ i, 1 ≤ sendImpl i ∧ sendImpl i ≤ data.length

theorem Fits.call (hfits : Fits data sendImpl) {n : Nat} (hn : n < data.length) (i : Nat) :
    1 ≤ (sendImpl i).toNat ∧ (sendImpl i).toNat ≤ data.length := by
  have hcall := hfits (List.ne_nil_of_length_pos (by omega)) i
  omega

theorem take_counted_succ (data : List Byte) (sendImpl : Nat → Int) (k : Nat) :
    data.take (counted sendImpl (k + 1)) =
      data.take (counted sendImpl k) ++ (data.drop (counted sendImpl k)).take (sendImpl k).toNat := by
  rw [counted, List.take_add]

/-- The loop goes on to the end of the block, and only adds to what was accepted. -/
theorem sendLoop_returns (hfits : Fits data sendImpl) (k : Nat) (accepted : List Byte) :
    ∃ more, sendLoop data sendImpl k (counted sendImpl k) accepted = .returned (accepted ++ more) := by
  induction hleft : data.length - counted sendImpl k using Nat.strongRecOn generalizing k accepted with
  | _ left ih =>
    rw [sendLoop]
    by_cases hlt : counted sendImpl k < data.length
    · have hcall := hfits.call hlt k
      have hsucc : counted sendImpl (k + 1) = counted sendImpl k + (sendImpl k).toNat := rfl
      obtain ⟨more, hmore⟩ := ih _ (by omega) (k + 1) (accepted ++ data.take (sendImpl k).toNat) rfl
      rw [if_pos hlt, if_neg (by omega)]
      exact ⟨data.take (sendImpl k).toNat ++ more, by rw [← List.append_assoc, ← hmore, hsucc]⟩
    · exact ⟨[], by rw [if_neg hlt, List.append_nil]⟩

/-- **One call after another.** Behind the bytes that are counted the block is completed exactly when
every call from here on is in step. -/
theorem sendLoop_exact_iff (hfits : Fits data sendImpl) (k : Nat) (hle : counted sendImpl k ≤ data.length) :
    sendLoop data sendImpl k (counted sendImpl k) (data.take (counted sendImpl k)) = .returned data ↔
      ∀ j, k ≤ j → counted sendImpl j < data.length → InStep data sendImpl j := by
  induction hleft : data.length - counted sendImpl k using Nat.strongRecOn generalizing k with
  | _ left ih =>
    have hsucc : counted sendImpl (k + 1) = counted sendImpl k + (sendImpl k).toNat := rfl
    by_cases hlt : counted sendImpl k < data.length
    · have hcall := hfits.call hlt k
      rw [sendLoop, if_pos hlt, if_neg (by omega), ← hsucc]
      by_cases hstep : InStep data sendImpl k
      · obtain ⟨hnext, hsame⟩ := hstep
        rw [← hsame, ← take_counted_succ, ih _ (by omega) (k + 1) hnext rfl]
        refine ⟨fun h j hj => ?_, fun h j hj => h j (by omega)⟩
        rcases Nat.eq_or_lt_of_le hj with rfl | hj
        · exact fun _ => ⟨hnext, hsame⟩
        · exact h j hj
      · refine iff_of_false (fun heq => hstep ?_) fun h => hstep (h k le_rfl hlt)
        -- what is accepted from here on is the rest of the block, and this call begins it
        obtain ⟨more, hmore⟩ := sendLoop_returns hfits (k + 1)
          (data.take (counted sendImpl k) ++ data.take (sendImpl k).toNat)
        have hall := Outcome.returned.inj (hmore.symm.trans heq)
        have hrest : data.take (sendImpl k).toNat ++ more = data.drop (counted sendImpl k) := by
          rw [List.append_assoc] at hall
          exact List.append_cancel_left (hall.trans (List.take_append_drop _ _).symm)
        have hlength := congrArg List.length hrest
        rw [List.length_append, List.length_take, List.length_drop] at hlength
        refine ⟨by omega, ?_⟩
        rw [← hrest, List.take_append_of_le_length (by rw [List.length_take]; omega), List.take_take, Nat.min_self]
    · have hall : counted sendImpl k = data.length := by omega
      rw [sendLoop, if_neg hlt, hall, List.take_length]
      refine iff_of_true rfl fun j hj hshort => absurd hshort ?_
      have hmono : Monotone (counted sendImpl) := monotone_nat_of_le_succ fun _ => Nat.le_add_right _ _
      have := hmono hj
      omega

/-- **What is sent.** `Send` returns having sent the block exactly when every call is in step: the counts
add up to the length of the block, and what is due at each call reads like its beginning. -/
theorem send_exact_iff (data : List Byte) (sendImpl : Nat → Int) (hfits : Fits data sendImpl) :
    (∀ accepted, send data sendImpl = .returned accepted → accepted = data) ↔
      ∀ k, counted sendImpl k < data.length → InStep data sendImpl k := by
  obtain ⟨sent, hsent⟩ := sendLoop_returns hfits 0 []
  have hiff := sendLoop_exact_iff hfits 0 (Nat.zero_le _)
  simp only [Nat.zero_le, forall_const] at hiff
  rw [← hiff]
  constructor
  · intro h
    have heq := h _ hsent
    rw [counted, List.take_zero]
    exact hsent.trans (congrArg _ heq)
  · intro h accepted hreturned
    exact Outcome.returned.inj (hreturned.symm.trans h)

theorem send_exact_iff_at_once :
    (∀ accepted, send [1, 2] (fun _ => 2) = .returned accepted → accepted = [1, 2]) ↔
      ∀ k, counted (fun _ => 2) k < [1, 2].length → InStep [1, 2] (fun _ => 2) k :=
  send_exact_iff [1, 2] (fun _ => 2) fun _ _ => by simp

/-- A transport that takes a byte at a time is sent the first byte again and again. -/
theorem send_repeats :
    ¬∀ (data : List Byte) (sendImpl : Nat → Int), Fits data sendImpl →
      ∀ accepted, send data sendImpl = .returned accepted → accepted = data := by
  intro h
  have hrun : send [1, 2] (fun _ => 1) = .returned [1, 1] := by simp [send, sendLoop]
  exact absurd (h [1, 2] (fun _ => 1) (fun _ _ => by simp) _ hrun) (by decide)

end Far2l.NetRocks.Transport
