import Lanscope.Framework.Text

/-!
# Decoding UTF-8

The decoder of the Rust standard library as a scan over bytes. A lead byte fixes how many
continuation bytes follow and the range of the first of them. Where a sequence breaks off, the bytes
read so far form one invalid chunk and the scan resumes at the byte that broke it, so that each
chunk is a maximal subpart of a well-formed sequence.
-/

namespace Lanscope.Framework.Utf8

open Str

/-- What a lead byte announces: its payload bits, the number of continuation bytes, and the least
and greatest value of the first of them. -/
def leadByte (b : UInt8) : Option (Nat × Nat × UInt8 × UInt8) :=
  if b < 0x80 then some (b.toNat, 0, 0x80, 0xBF)
  else if b < 0xC2 then none
  else if b < 0xE0 then some (b.toNat % 32, 1, 0x80, 0xBF)
  else if b = 0xE0 then some (b.toNat % 16, 2, 0xA0, 0xBF)
  else if b = 0xED then some (b.toNat % 16, 2, 0x80, 0x9F)
  else if b < 0xF0 then some (b.toNat % 16, 2, 0x80, 0xBF)
  else if b = 0xF0 then some (b.toNat % 8, 3, 0x90, 0xBF)
  else if b < 0xF4 then some (b.toNat % 8, 3, 0x80, 0xBF)
  else if b = 0xF4 then some (b.toNat % 8, 3, 0x80, 0x8F)
  else none

/-- Read the continuation bytes still owed. `none` marks a sequence that breaks off. -/
def continuation : Nat → Nat → UInt8 → UInt8 → List UInt8 → Option Char × List UInt8
  | 0, acc, _, _, bytes => (some (Char.ofNat acc), bytes)
  | _ + 1, _, _, _, [] => (none, [])
  | n + 1, acc, lo, hi, b :: bytes =>
    if lo ≤ b ∧ b ≤ hi then continuation n (acc * 64 + b.toNat % 64) 0x80 0xBF bytes
    else (none, b :: bytes)

/-- The first chunk of a nonempty byte string: a character, or `none` for an invalid chunk. -/
def nextChunk (b : UInt8) (bytes : List UInt8) : Option Char × List UInt8 :=
  match leadByte b with
  | none => (none, bytes)
  | some (acc, n, lo, hi) => continuation n acc lo hi bytes

private theorem continuation_length (n acc : Nat) (lo hi : UInt8) (bytes : List UInt8) :
    (continuation n acc lo hi bytes).2.length ≤ bytes.length := by
  induction n generalizing acc lo hi bytes with
  | zero => simp [continuation]
  | succ n ih =>
      cases bytes with
      | nil => simp [continuation]
      | cons b bytes =>
          unfold continuation
          split
          · exact (ih _ _ _ bytes).trans (Nat.le_succ _)
          · rfl

theorem nextChunk_length (b : UInt8) (bytes : List UInt8) :
    (nextChunk b bytes).2.length ≤ bytes.length := by
  unfold nextChunk
  split
  · rfl
  · exact continuation_length _ _ _ _ _

def chunks : List UInt8 → List (Option Char)
  | [] => []
  | b :: bytes => (nextChunk b bytes).1 :: chunks (nextChunk b bytes).2
termination_by bytes => bytes.length
decreasing_by
  have := nextChunk_length b bytes
  simp only [List.length_cons]
  omega

/-- `str::from_utf8`, which refuses a byte string with any invalid chunk. -/
def fromUtf8 (bytes : List UInt8) : Option Str := (chunks bytes).mapM id

/-- `String::from_utf8_lossy`: each invalid chunk becomes one replacement character. -/
def fromUtf8Lossy (bytes : List UInt8) : Str :=
  (chunks bytes).map fun c => c.getD (Char.ofNat 0xFFFD)

@[simp] theorem chunks_nil : chunks [] = [] := by rw [chunks]

theorem chunks_cons_ascii {b : UInt8} (h : b < 0x80) (bytes : List UInt8) :
    chunks (b :: bytes) = some (Char.ofNat b.toNat) :: chunks bytes := by
  rw [chunks]
  simp [nextChunk, leadByte, h, continuation]

theorem chunks_ascii {bytes : List UInt8} (h : ∀ b ∈ bytes, b < 0x80) :
    chunks bytes = bytes.map fun b => some (Char.ofNat b.toNat) := by
  induction bytes with
  | nil => simp
  | cons b bytes ih =>
      rw [chunks_cons_ascii (h b (by simp)), ih fun c hc => h c (by simp [hc])]
      rfl

/-- Of a cut byte string, the continuation reads what it would read of the whole, or breaks off. -/
private theorem continuation_take (m acc : Nat) (lo hi : UInt8) (bytes : List UInt8) :
    ∃ used, (continuation m acc lo hi bytes).2 = bytes.drop used ∧
      ∀ n, continuation m acc lo hi (bytes.take n) =
        if used ≤ n then
          ((continuation m acc lo hi bytes).1, (continuation m acc lo hi bytes).2.take (n - used))
        else (none, []) := by
  induction m generalizing acc lo hi bytes with
  | zero => exact ⟨0, rfl, fun n => rfl⟩
  | succ m ih =>
      cases bytes with
      | nil => exact ⟨0, rfl, fun n => by simp [continuation]⟩
      | cons b bytes =>
          by_cases hb : lo ≤ b ∧ b ≤ hi
          · obtain ⟨used, hdrop, htake⟩ := ih (acc * 64 + b.toNat % 64) 0x80 0xBF bytes
            refine ⟨used + 1, ?_, fun n => ?_⟩
            · simp only [continuation, hb, and_self, if_true, List.drop_succ_cons, hdrop]
            · cases n with
              | zero => simp [continuation]
              | succ n =>
                  simp only [List.take_succ_cons, continuation, hb, and_self, if_true, htake,
                    Nat.add_le_add_iff_right, Nat.add_sub_add_right]
          · refine ⟨0, by simp only [continuation, hb, if_false, List.drop_zero], fun n => ?_⟩
            cases n with
            | zero => simp [continuation, hb]
            | succ n => simp [continuation, hb]

private theorem nextChunk_take (b : UInt8) (bytes : List UInt8) :
    ∃ used, (nextChunk b bytes).2 = bytes.drop used ∧
      ∀ n, nextChunk b (bytes.take n) =
        if used ≤ n then ((nextChunk b bytes).1, (nextChunk b bytes).2.take (n - used))
        else (none, []) := by
  unfold nextChunk
  cases leadByte b with
  | none => exact ⟨0, rfl, fun n => rfl⟩
  | some lead => exact continuation_take _ _ _ _ bytes

/-- A cut byte string has the chunks of the whole up to the cut, where an invalid one may follow. -/
theorem chunks_take (bytes : List UInt8) (n : Nat) : ∃ k,
    chunks (bytes.take n) = (chunks bytes).take k ∨
    chunks (bytes.take n) = (chunks bytes).take k ++ [none] := by
  fun_induction chunks bytes generalizing n with
  | case1 => exact ⟨0, Or.inl (by simp)⟩
  | case2 b bytes ih =>
      cases n with
      | zero => exact ⟨0, Or.inl (by simp)⟩
      | succ n =>
          obtain ⟨used, hdrop, htake⟩ := nextChunk_take b bytes
          rw [List.take_succ_cons, chunks.eq_2, htake]
          by_cases hn : used ≤ n
          · obtain ⟨k, hk⟩ := ih (n - used)
            refine ⟨k + 1, ?_⟩
            simp only [hn, if_true, List.take_succ_cons, List.cons_append, List.cons.injEq,
              true_and]
            exact hk
          · refine ⟨0, Or.inr ?_⟩
            simp only [hn, if_false, chunks_nil, List.take_zero, List.nil_append]

/-- The text of a cut byte string, up to a replacement character for a character that is cut. -/
theorem fromUtf8Lossy_take (bytes : List UInt8) (n : Nat) : ∃ k tail,
    fromUtf8Lossy (bytes.take n) = (fromUtf8Lossy bytes).take k ++ tail ∧
      (tail = [] ∨ tail = [Char.ofNat 0xFFFD]) := by
  obtain ⟨k, hk⟩ := chunks_take bytes n
  unfold fromUtf8Lossy
  cases hk with
  | inl hwhole => exact ⟨k, [], by rw [hwhole, List.map_take, List.append_nil], Or.inl rfl⟩
  | inr hcut =>
      refine ⟨k, [Char.ofNat 0xFFFD], ?_, Or.inr rfl⟩
      rw [hcut, List.map_append, List.map_take]
      rfl

theorem fromUtf8_ascii {bytes : List UInt8} (h : ∀ b ∈ bytes, b < 0x80) :
    fromUtf8 bytes = some (bytes.map fun b => Char.ofNat b.toNat) := by
  rw [fromUtf8, chunks_ascii h]
  clear h
  induction bytes with
  | nil => rfl
  | cons b bytes ih => simp only [List.map_cons, List.mapM_cons, ih]; rfl

theorem fromUtf8Lossy_ascii {bytes : List UInt8} (h : ∀ b ∈ bytes, b < 0x80) :
    fromUtf8Lossy bytes = bytes.map fun b => Char.ofNat b.toNat := by
  rw [fromUtf8Lossy, chunks_ascii h, List.map_map]
  rfl

/-! ## Encoding -/

/-- `str::as_bytes`. -/
def encode (s : Str) : List UInt8 := s.flatMap String.utf8EncodeChar

private theorem leadByte_two : ∀ n : Fin 32, 2 ≤ n.val →
    leadByte (UInt8.ofNat (n.val + 0xC0)) = some (n.val, 1, 0x80, 0xBF) := by
  decide +kernel

private theorem leadByte_three : ∀ n : Fin 16, leadByte (UInt8.ofNat (n.val + 0xE0)) =
    some (n.val, 2, if n.val = 0 then 0xA0 else 0x80, if n.val = 13 then 0x9F else 0xBF) := by
  decide +kernel

private theorem leadByte_four : ∀ n : Fin 5, leadByte (UInt8.ofNat (n.val + 0xF0)) =
    some (n.val, 3, if n.val = 0 then 0x90 else 0x80, if n.val = 4 then 0x8F else 0xBF) := by
  decide +kernel

private theorem chunks_cons_of_leadByte {b lo hi : UInt8} {acc n : Nat}
    (h : leadByte b = some (acc, n, lo, hi)) (bytes : List UInt8) : chunks (b :: bytes) =
      (continuation n acc lo hi bytes).1 :: chunks (continuation n acc lo hi bytes).2 := by
  rw [chunks, nextChunk, h]

/-- A continuation byte adds its six bits. -/
private theorem continuation_tail {x : Nat} (hx : x < 64) {lo hi : UInt8}
    (hlo : lo.toNat ≤ x + 0x80) (hhi : x + 0x80 ≤ hi.toNat) (n acc : Nat) (bytes : List UInt8) :
    continuation (n + 1) acc lo hi (UInt8.ofNat (x + 0x80) :: bytes) =
      continuation n (acc * 64 + x) 0x80 0xBF bytes := by
  have hbyte : (UInt8.ofNat (x + 0x80)).toNat = x + 0x80 :=
    UInt8.toNat_ofNat_of_lt' (show x + 0x80 < 256 by omega)
  have hrange : lo ≤ UInt8.ofNat (x + 0x80) ∧ UInt8.ofNat (x + 0x80) ≤ hi := by
    rw [UInt8.le_iff_toNat_le, UInt8.le_iff_toNat_le, hbyte]
    exact ⟨hlo, hhi⟩
  rw [continuation, if_pos hrange, hbyte, show (x + 0x80) % 64 = x by omega]

private theorem continuation_tail' {x : Nat} (hx : x < 64) (n acc : Nat) (bytes : List UInt8) :
    continuation (n + 1) acc 0x80 0xBF (UInt8.ofNat (x + 0x80) :: bytes) =
      continuation n (acc * 64 + x) 0x80 0xBF bytes :=
  have hhi : x + 0x80 ≤ (0xBF : UInt8).toNat := by
    show x + 0x80 ≤ 191
    omega
  continuation_tail hx (Nat.le_add_left _ _) hhi n acc bytes

section Lengths

variable (c : Char) (bytes : List UInt8)

private theorem chunks_two (hlo : 0x7F < c.toNat) (hhi : c.toNat ≤ 0x7FF) :
    chunks (UInt8.ofNat (c.toNat / 64 % 32 + 0xC0) :: UInt8.ofNat (c.toNat % 64 + 0x80) :: bytes) =
      some c :: chunks bytes := by
  have hlead : leadByte (UInt8.ofNat (c.toNat / 64 % 32 + 0xC0)) =
      some (c.toNat / 64 % 32, 1, 0x80, 0xBF) :=
    leadByte_two ⟨c.toNat / 64 % 32, by omega⟩ (show 2 ≤ c.toNat / 64 % 32 by omega)
  have hvalue : c.toNat / 64 % 32 * 64 + c.toNat % 64 = c.toNat := by omega
  rw [chunks_cons_of_leadByte hlead, continuation_tail' (by omega), continuation, hvalue,
    Char.ofNat_toNat]

private theorem chunks_three (hlo : 0x7FF < c.toNat) (hhi : c.toNat ≤ 0xFFFF) :
    chunks (UInt8.ofNat (c.toNat / 4096 % 16 + 0xE0) :: UInt8.ofNat (c.toNat / 64 % 64 + 0x80) ::
      UInt8.ofNat (c.toNat % 64 + 0x80) :: bytes) = some c :: chunks bytes := by
  have hlead : leadByte (UInt8.ofNat (c.toNat / 4096 % 16 + 0xE0)) =
      some (c.toNat / 4096 % 16, 2, if c.toNat / 4096 % 16 = 0 then 0xA0 else 0x80,
        if c.toNat / 4096 % 16 = 13 then 0x9F else 0xBF) :=
    leadByte_three ⟨c.toNat / 4096 % 16, by omega⟩
  have hvalue : (c.toNat / 4096 % 16 * 64 + c.toNat / 64 % 64) * 64 + c.toNat % 64 = c.toNat := by
    omega
  rw [chunks_cons_of_leadByte hlead, continuation_tail (by omega) ?_ ?_,
    continuation_tail' (by omega), continuation, hvalue, Char.ofNat_toNat]
  · split_ifs
    · show 160 ≤ _
      omega
    · exact Nat.le_add_left _ _
  · -- the surrogates are no characters
    have hvalid : c.toNat < 0xD800 ∨ 0xDFFF < c.toNat ∧ c.toNat < 0x110000 := c.valid
    split_ifs
    · show _ ≤ 159
      omega
    · show _ ≤ 191
      omega

private theorem chunks_four (hlo : 0xFFFF < c.toNat) :
    chunks (UInt8.ofNat (c.toNat / 262144 % 8 + 0xF0) :: UInt8.ofNat (c.toNat / 4096 % 64 + 0x80) ::
      UInt8.ofNat (c.toNat / 64 % 64 + 0x80) :: UInt8.ofNat (c.toNat % 64 + 0x80) :: bytes) =
      some c :: chunks bytes := by
  have hvalid : c.toNat < 0xD800 ∨ 0xDFFF < c.toNat ∧ c.toNat < 0x110000 := c.valid
  have hlead : leadByte (UInt8.ofNat (c.toNat / 262144 % 8 + 0xF0)) =
      some (c.toNat / 262144 % 8, 3, if c.toNat / 262144 % 8 = 0 then 0x90 else 0x80,
        if c.toNat / 262144 % 8 = 4 then 0x8F else 0xBF) :=
    leadByte_four ⟨c.toNat / 262144 % 8, by omega⟩
  have hvalue : ((c.toNat / 262144 % 8 * 64 + c.toNat / 4096 % 64) * 64 + c.toNat / 64 % 64) * 64 +
      c.toNat % 64 = c.toNat := by omega
  rw [chunks_cons_of_leadByte hlead, continuation_tail (by omega) ?_ ?_,
    continuation_tail' (by omega), continuation_tail' (by omega), continuation, hvalue,
    Char.ofNat_toNat]
  · split_ifs
    · show 144 ≤ _
      omega
    · exact Nat.le_add_left _ _
  · split_ifs
    · show _ ≤ 143
      omega
    · show _ ≤ 191
      omega

/-- The scan takes an encoded character as one chunk, whatever follows. -/
theorem chunks_encodeChar :
    chunks (String.utf8EncodeChar c ++ bytes) = some c :: chunks bytes := by
  unfold String.utf8EncodeChar
  simp only [show c.val.toNat = c.toNat from rfl]
  split_ifs with h₁ h₂ h₃
  · have hbyte : (UInt8.ofNat c.toNat).toNat = c.toNat :=
      UInt8.toNat_ofNat_of_lt' (show c.toNat < 256 by omega)
    have hascii : UInt8.ofNat c.toNat < 0x80 := by
      rw [UInt8.lt_iff_toNat_lt, hbyte]
      exact Nat.lt_succ_of_le h₁
    rw [List.singleton_append, chunks_cons_ascii hascii, hbyte, Char.ofNat_toNat]
  · exact chunks_two c bytes (not_le.mp h₁) h₂
  · exact chunks_three c bytes (not_le.mp h₂) h₃
  · exact chunks_four c bytes (not_le.mp h₃)

end Lengths

theorem chunks_encode (s : Str) : chunks (encode s) = s.map some := by
  induction s with
  | nil => exact chunks_nil
  | cons c s ih =>
      rw [encode, List.flatMap_cons, chunks_encodeChar, ← encode, ih, List.map_cons]

/-- Decoding undoes encoding. -/
theorem fromUtf8Lossy_encode (s : Str) : fromUtf8Lossy (encode s) = s := by
  rw [fromUtf8Lossy, chunks_encode, List.map_map]
  exact List.map_id s

end Lanscope.Framework.Utf8
