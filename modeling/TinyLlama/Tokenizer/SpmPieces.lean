import TinyLlama.Tokenizer.SpmLossless

namespace TinyLlama.Tokenizer
open LittleEndian Gguf Vocabulary

variable {m : Model} {v : Vocab} {scores : List Nat} {norm : List UInt8}

-- No symbol outgrows the u8 of a lookup, whatever the text is.
def Small (sym : List SpmSym) : Prop := ∀ s ∈ sym,s.n ≤ 255

theorem splitLoop_small (norm : List UInt8) (fuel : Nat) : ∀ off nsym,Small (splitLoop norm fuel off nsym) := by
  induction fuel with
  | zero => exact fun off nsym s listed => by simp [splitLoop] at listed
  | succ fuel ih =>
    intro off nsym s listed
    rw [splitLoop] at listed
    cases here : norm[off]? with
    | none => simp [here] at listed
    | some c =>
      simp only [here] at listed
      rcases List.mem_cons.mp listed with rfl | later
      · have few := utf8CharLen_le c
        dsimp only
        split <;> omega
      · exact ih _ _ s later

theorem Small.modify (small : Small sym) (k : Nat) (f : SpmSym → SpmSym) (same : ∀ s,(f s).n = s.n) : Small (sym.modify k f) := by
  intro s listed
  obtain ⟨j,there⟩ := List.mem_iff_getElem?.mp listed
  rw [List.getElem?_modify,Option.map_eq_map,Option.map_eq_some_iff] at there
  obtain ⟨t,held,rfl⟩ := there
  have fits := small t (List.mem_of_getElem? held)
  split
  · rw [same]
    exact fits
  · exact fits

theorem Small.set (small : Small sym) (k : Nat) (fits : s.n ≤ 255) : Small (sym.set k s) := by
  intro t listed
  rcases List.mem_or_eq_of_mem_set listed with kept | rfl
  · exact small t kept
  · exact fits

theorem splitChars_small (norm : List UInt8) : Small (splitChars norm) :=
  (splitLoop_small norm norm.length 0 0).modify _ _ fun _ => rfl

def PairFits (sym : List SpmSym) (b : Int) : Prop :=
  ∀ s r,sym[b.toNat]? = some s → sym[s.next.toNat]? = some r → s.n+r.n ≤ 255

theorem bestJoin_fits (v : Vocab) (scores : List Nat) (norm : List UInt8) (sym : List SpmSym) (fuel : Nat) : ∀ i best,
    (∀ b sc,best = some (b,sc) → PairFits sym b) → ∀ b sc,bestJoin v scores norm sym fuel i best = some (b,sc) → PairFits sym b := by
  induction fuel with
  | zero => exact fun i best before => before
  | succ fuel ih =>
    intro i best before b sc found
    unfold bestJoin at found
    split at found
    · exact before b sc found
    · split at found
      · exact before b sc found
      · next s here =>
        split at found
        · exact before b sc found
        · split at found
          · exact before b sc found
          · next r next =>
            split at found
            · exact ih _ _ before b sc found
            · next score joined =>
              refine ih _ _ (fun b' sc' picked => ?_) b sc found
              split at picked
              · obtain ⟨rfl,_⟩ := Prod.mk.inj (Option.some.inj picked)
                intro s' r' here' next'
                obtain rfl := Option.some.inj (here.symm.trans here')
                obtain rfl := Option.some.inj (next.symm.trans next')
                by_contra long
                rw [joinScore,if_pos (by omega)] at joined
                cases joined
              · exact before b' sc' picked

theorem joinAt_small (small : Small sym) (fits : PairFits sym b) : Small (joinAt sym b.toNat) := by
  unfold joinAt
  split
  · exact small
  · next s here =>
    split
    · exact small
    · next r next =>
      have both : Small ((sym.set b.toNat {s with n:=s.n+r.n,next:=r.next}).set s.next.toNat {r with n:=0}) :=
        (small.set _ (fits s r here next)).set _ (Nat.zero_le _)
      dsimp only
      split
      · exact both.modify _ _ fun _ => rfl
      · exact both

theorem joinLoop_small (v : Vocab) (scores : List Nat) (norm : List UInt8) (fuel : Nat) : ∀ sym,Small sym →
    Small (joinLoop v scores norm fuel sym) := by
  induction fuel with
  | zero => exact fun sym small => small
  | succ fuel ih =>
    intro sym small
    rw [joinLoop]
    split
    · exact small
    · next b sc found =>
      exact ih _ (joinAt_small small (bestJoin_fits v scores norm sym _ 0 none (fun b sc none' => by cases none') b sc found))

theorem walk_inside (sym : List SpmSym) (fuel : Nat) : ∀ i,∀ s ∈ walk sym fuel i,s ∈ sym := by
  induction fuel with
  | zero => exact fun i s listed => by simp [walk] at listed
  | succ fuel ih =>
    intro i s listed
    rw [walk] at listed
    split at listed
    · simp at listed
    · split at listed
      · simp at listed
      · next t held =>
        rcases List.mem_cons.mp listed with rfl | later
        · exact List.mem_of_getElem? held
        · exact ih _ s later

theorem spmSymbols_small (v : Vocab) (scores : List Nat) (norm : List UInt8) : Small (spmSymbols v scores norm) :=
  fun s listed => joinLoop_small v scores norm _ _ (splitChars_small norm) s (walk_inside _ _ _ s listed)

theorem spmByteTable_sound (token : List Key) (types : Option (List Nat)) (b : UInt8) :
    spmByteTable token types b = vocabIdNone ∨ ∃ (i : Nat) (k : Key),token[i]? = some k ∧ (spmByteTokenValue k).isSome ∧
      spmByteTable token types b = i32 i := by
  unfold spmByteTable
  refine List.foldlRecOn (motive:=fun (table : UInt8 → Int) => table b = vocabIdNone ∨ ∃ (i : Nat) (k : Key),token[i]? = some k ∧
    (spmByteTokenValue k).isSome ∧ table b = i32 i) _ _ (.inl rfl) fun table held e present => ?_
  have within : token[e.2]? = some e.1 := by
    refine List.mem_zipIdx_iff_getElem?.mp ?_
    cases types with
    | none => exact present
    | some types =>
      obtain ⟨r,kept,rfl⟩ := List.mem_map.mp present
      exact (List.of_mem_zip (List.mem_of_mem_filter kept)).1
  cases value : spmByteTokenValue e.1 with
  | none => simpa only [value] using held
  | some byte =>
    by_cases own : b.toNat = byte
    · exact .inr ⟨e.2,e.1,within,by simp [value],by simp [value,own]⟩
    · simpa only [value,if_neg own] using held

theorem byteSymbol_sound (loaded : vocabLoad m = .ok v) (scored : v.scores = some scores) {id : Nat}
    (found : byteSymbol v b = some id) :
    ∃ k,v.token[id]? = some k ∧ (spmByteTokenValue k).isSome := by
  unfold byteSymbol at found
  rw [vocabLoad_scored loaded scored] at found
  rcases spmByteTable_sound v.token (tokenTypes m v.token.length) b with none' | ⟨i,k,listed,value,held⟩
  · rw [none'] at found
    cases found
  · have below := (List.getElem?_eq_some_iff.mp listed).1
    have count := (vocabLoad_indexed loaded).count
    simp only [int32Max] at count
    rw [held,i32_of_lt (by omega),if_pos (by omega)] at found
    obtain rfl : i = id := by simpa using found
    exact ⟨k,listed,value⟩

theorem spmTokens_piece (loaded : vocabLoad m = .ok v) (scored : v.scores = some scores) (norm : List UInt8) :
    ∀ id ∈ (spmSymbols v scores norm).flatMap (emit v norm),
      ∃ k,v.token[id]? = some k ∧ (k.bytes <:+: norm ∨ (spmByteTokenValue k).isSome) := by
  intro id present
  obtain ⟨s,symbol,emitted⟩ := List.mem_flatMap.mp present
  have short := spmSymbols_small v scores norm s symbol
  unfold emit at emitted
  split at emitted
  · simp at emitted
  · split at emitted
    · next id' found =>
      obtain ⟨i,k,listed,bytes,rfl⟩ := lookup_sound (vocabLoad_indexed loaded) short found
      obtain rfl : id = i := by simpa using emitted
      refine ⟨k,listed,.inl ?_⟩
      rw [bytes]
      exact (List.take_prefix _ _).isInfix.trans (List.drop_suffix _ _).isInfix
    · obtain ⟨b,_,symbol⟩ := List.mem_filterMap.mp emitted
      obtain ⟨k,listed,value⟩ := byteSymbol_sound loaded scored symbol
      exact ⟨k,listed,.inr value⟩

end TinyLlama.Tokenizer
