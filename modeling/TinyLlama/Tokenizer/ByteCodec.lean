import TinyLlama.Tokenizer.Bpe

-- The byte-level alphabet of vocab_load_for_bpe, and the four decoders that map its pieces back.
namespace TinyLlama.Tokenizer
open Gguf Vocabulary

def llamaDecode (raw : List UInt8) (maxLen : Nat) : List UInt8 := decodeLoop maxLen raw
def qwen35Decode (raw : List UInt8) (maxLen : Nat) : List UInt8 := decodeLoop maxLen raw
def falconH1Decode (raw : List UInt8) (maxLen : Nat) : List UInt8 := decodeLoop maxLen raw

def spelling (bytes : List UInt8) : List UInt8 := bytes.flatMap bytePiece

theorem spelling_append (xs ys : List UInt8) : spelling (xs++ys) = spelling xs++spelling ys := by
  simp [spelling]

theorem bytePiece_length (b : UInt8) : (bytePiece b).length ≤ 3 := by
  unfold bytePiece encodeUtf8
  split
  · simp
  · split <;> simp

-- The decoder undoes the byte mapping: one byte, or a pair it maps back.
def undone (b : UInt8) : Bool :=
  match bytePiece b with
  | [c] => 0x21 ≤ c.toNat ∧ c.toNat ≤ 0x7E ∧ c = b
  | [c,nc] => 0xC2 ≤ c.toNat ∧ c.toNat ≤ 0xC5 ∧ mappedByte c.toNat nc.toNat = some b.toNat
  | _ => false

theorem undone_all (b : UInt8) : undone b = true := by
  have table : ∀ n < 256, undone (UInt8.ofNat n) = true := by decide +kernel
  have byte := table b.toNat b.toNat_lt
  rwa [UInt8.ofNat_toNat] at byte

theorem decodeLoop_piece (b : UInt8) (room : Nat) (rest : List UInt8) :
    decodeLoop (room+1) (bytePiece b++rest) = b :: decodeLoop room rest := by
  have back := undone_all b
  unfold undone at back
  split at back
  · rename_i c piece
    obtain ⟨low,high,rfl⟩ := of_decide_eq_true back
    rw [piece]
    simp only [List.cons_append,List.nil_append,decodeLoop,low,high,and_self,if_true]
  · rename_i c nc piece
    obtain ⟨low,high,mapped⟩ := of_decide_eq_true back
    have wide : ¬(0x21 ≤ c.toNat ∧ c.toNat ≤ 0x7E) := by omega
    have small : b.toNat ≤ 255 := by have := b.toNat_lt; omega
    rw [piece]
    simp only [List.cons_append,List.nil_append,decodeLoop,if_neg wide,low,high,and_self,if_true,mapped,small,
      UInt8.ofNat_toNat]
  · simp at back

-- The decoder stays in step with the pieces, and stops between two of them.
theorem decodeLoop_spelling (bytes : List UInt8) : ∀ room, decodeLoop room (spelling bytes) = bytes.take room := by
  induction bytes with
  | nil => intro room; cases room <;> rfl
  | cons b rest ih =>
    intro room
    cases room with
    | zero => rfl
    | succ room =>
      have cut : spelling (b :: rest) = bytePiece b++spelling rest := rfl
      rw [cut,decodeLoop_piece,ih room,List.take_succ_cons]

theorem decode_spelling (bytes : List UInt8) (room : Nat) (enough : bytes.length ≤ room) : decodeLoop room (spelling bytes) = bytes := by
  rw [decodeLoop_spelling,List.take_of_length_le enough]

theorem bytePiece_some (b : UInt8) : 0 < (bytePiece b).length := by
  unfold bytePiece encodeUtf8
  split
  · simp
  · split <;> simp

theorem spelling_length (bytes : List UInt8) : bytes.length ≤ (spelling bytes).length := by
  induction bytes with
  | nil => simp
  | cons b rest ih =>
    have some' := bytePiece_some b
    have cut : spelling (b :: rest) = bytePiece b++spelling rest := rfl
    rw [cut,List.length_append,List.length_cons]
    omega

theorem byteCodec_roundTrip (bytes : List UInt8) (maxLen : Nat) (room : bytes.length ≤ maxLen) :
    ∀ decode ∈ [qwen25Decode,llamaDecode,qwen35Decode,falconH1Decode],decode (bytes.flatMap bytePiece) maxLen = bytes := by
  have back : decodeLoop maxLen (bytes.flatMap bytePiece) = bytes := decode_spelling bytes maxLen room
  intro decode listed
  simp only [List.mem_cons,List.not_mem_nil,or_false] at listed
  rcases listed with rfl | rfl | rfl | rfl <;> exact back

-- A tab, a letter, the soft hyphen and the last byte, in a buffer of four.
theorem fourBytes_roundTrip : [qwen25Decode,llamaDecode,qwen35Decode,falconH1Decode].map (fun decode => decode [0xC4,0x89,97,0xC5,0x83,0xC3,0xBF] 4) =
    List.replicate 4 [9,97,0xAD,255] := by
  refine List.eq_replicate_iff.mpr ⟨rfl,fun out listed => ?_⟩
  obtain ⟨decode,member,rfl⟩ := List.mem_map.mp listed
  exact byteCodec_roundTrip [9,97,0xAD,255] 4 (by decide) decode member

end TinyLlama.Tokenizer
