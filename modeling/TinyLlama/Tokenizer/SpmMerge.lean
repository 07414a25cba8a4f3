import TinyLlama.Tokenizer.SpmText
import TinyLlama.Vocabulary.Lookup

namespace TinyLlama.Tokenizer
open Gguf Vocabulary

-- A node of the list: the index of its symbol and the characters that it spells.
abbrev Node := Nat × List (List UInt8)

-- Following `next` from `i`, the symbols are these nodes, side by side from `off` on.
def Linked (sym : List SpmSym) : Nat → Int → List Node → Prop
  | _,i,[] => i = -1
  | off,i,(k,g) :: rest => i = k ∧ (∀ node ∈ rest, k < node.1) ∧ ∃ s, sym[k]? = some s ∧ s.off = off ∧
      s.n = g.flatten.length ∧ Linked sym (off+g.flatten.length) s.next rest

-- All that a walk reads of a symbol.
def SameLink (s t : SpmSym) : Prop := t.off = s.off ∧ t.n = s.n ∧ t.next = s.next

theorem Linked.frame (nodes : List Node) : ∀ off i, Linked sym off i nodes →
    (∀ node ∈ nodes, ∀ s, sym[node.1]? = some s → ∃ t, sym'[node.1]? = some t ∧ SameLink s t) →
    Linked sym' off i nodes := by
  induction nodes with
  | nil => intro off i linked _; exact linked
  | cons node rest ih =>
    intro off i linked kept
    obtain ⟨here,later,s,held,at',size,tail⟩ := linked
    obtain ⟨t,held',same⟩ := kept node (List.mem_cons_self ..) s held
    refine ⟨here,later,t,held',same.1.trans at',same.2.1.trans size,?_⟩
    rw [same.2.2]
    exact ih _ _ tail fun node present => kept node (List.mem_cons_of_mem _ present)

theorem Linked.bound (nodes : List Node) : ∀ off i, Linked sym off i nodes → nodes.length ≤ sym.length-i.toNat := by
  induction nodes with
  | nil => intro off i _; simp
  | cons node rest ih =>
    intro off i linked
    obtain ⟨rfl,later,s,held,_,_,tail⟩ := linked
    have inside := (List.getElem?_eq_some_iff.mp held).1
    have more := ih _ _ tail
    cases rest with
    | nil => simp only [List.length_cons,List.length_nil]; omega
    | cons next rest =>
      have next' : s.next = next.1 := tail.1
      have rises := later next (List.mem_cons_self ..)
      simp only [List.length_cons,next',Int.toNat_natCast] at more ⊢
      omega

theorem Linked.length_le (linked : Linked sym off i nodes) : nodes.length ≤ sym.length :=
  Nat.le_trans (Linked.bound _ _ _ linked) (Nat.sub_le _ _)

theorem linked_nat (linked : Linked sym off i (node :: rest)) : i = node.1 ∧ ¬i < 0 ∧ i.toNat = node.1 := by
  have here := linked.1
  omega

theorem linked_next (linked : Linked sym off i nodes) : i < 0 ↔ nodes = [] := by
  cases nodes with
  | nil => simp only [Linked] at linked; simp [linked]
  | cons node rest =>
    have here := linked_nat linked
    simp [here.2.1]

section split
variable {norm : List UInt8}

theorem splitLoop_get (us : List (List UInt8)) (chars : ∀ u ∈ us, IsChar u) : ∀ fuel off nsym,
    norm.drop off = us.flatten → us.length ≤ fuel → ∀ j,
    (splitLoop norm fuel off nsym)[j]? =
      us[j]?.map fun u => (⟨off+(us.take j).flatten.length,u.length,nsym+j-1,nsym+j+1⟩ : SpmSym) := by
  induction us with
  | nil =>
    intro fuel off nsym rest _ j
    have past : norm[off]? = none := by
      rw [List.getElem?_eq_none_iff]
      exact List.drop_eq_nil_iff.mp rest
    cases fuel with
    | zero => simp [splitLoop]
    | succ fuel => simp [splitLoop,past]
  | cons u us ih =>
    intro fuel off nsym rest enough j
    obtain ⟨fuel,rfl⟩ : ∃ f, fuel = f+1 := ⟨fuel-1,by simp only [List.length_cons] at enough; omega⟩
    obtain ⟨lead,tl,form,width,_⟩ := chars u (List.mem_cons_self ..)
    have first : norm[off]? = some lead := by
      rw [← Nat.add_zero off,← List.getElem?_drop,rest,form]; rfl
    have room : off+u.length ≤ norm.length := by
      have total := congrArg List.length rest
      rw [List.length_drop,List.flatten_cons,List.length_append] at total
      have some' := (chars u (List.mem_cons_self ..)).positive
      omega
    have fits : ¬off+u.length > norm.length := by omega
    have tail : norm.drop (off+u.length) = us.flatten := by
      rw [← List.drop_drop,rest,List.flatten_cons,List.drop_left]
    rw [splitLoop,first]
    simp only [width,if_neg fits]
    cases j with
    | zero => simp
    | succ j =>
      rw [List.getElem?_cons_succ,ih (fun u present => chars u (List.mem_cons_of_mem _ present)) fuel _ (nsym+1) tail
        (by simpa using enough) j,List.getElem?_cons_succ,List.take_succ_cons,List.flatten_cons,List.length_append]
      congr 1
      funext u'
      congr 1 <;> push_cast <;> omega

def singles : Nat → List (List UInt8) → List Node
  | _,[] => []
  | k,u :: us => (k,[u]) :: singles (k+1) us

theorem singles_above (us : List (List UInt8)) : ∀ k, ∀ node ∈ singles k us, k ≤ node.1 := by
  induction us with
  | nil => intro k node present; simp [singles] at present
  | cons u us ih =>
    intro k node present
    rcases List.mem_cons.mp present with rfl | later
    · exact Nat.le_refl k
    · exact Nat.le_of_succ_le (ih (k+1) node later)

theorem singles_chars (us : List (List UInt8)) : ∀ k, (singles k us).flatMap Prod.snd = us := by
  induction us with
  | nil => intro k; rfl
  | cons u us ih => intro k; rw [singles,List.flatMap_cons,ih]; rfl

theorem linked_singles (us : List (List UInt8)) : ∀ k off, us ≠ [] →
    (∀ j u, us[j]? = some u → ∃ s, sym[k+j]? = some s ∧ s.off = off+(us.take j).flatten.length ∧ s.n = u.length ∧
      s.next = if j+1 = us.length then -1 else ((k+j+1 : Nat) : Int)) →
    Linked sym off k (singles k us) := by
  induction us with
  | nil => intro k off some'; exact absurd rfl some'
  | cons u us ih =>
    intro k off _ held
    obtain ⟨s,there,at',size,next⟩ := held 0 u rfl
    refine ⟨rfl,fun node present => Nat.lt_of_succ_le (singles_above us _ node present),s,there,by simpa using at',
      by simpa using size,?_⟩
    by_cases last : us = []
    · subst last
      simpa [singles,Linked] using next
    · have more : ¬0+1 = (u :: us).length := by
        have long := List.length_pos_iff.mpr last
        simp only [List.length_cons]; omega
      rw [if_neg more] at next
      rw [next]
      refine ih (k+1) _ last fun j u' listed => ?_
      obtain ⟨s',there',at'',size',next'⟩ := held (j+1) u' listed
      refine ⟨s',by rw [← there']; congr 1; omega,?_,size',?_⟩
      · rw [at'']
        simp only [List.take_succ_cons,List.flatten_cons,List.length_append,List.flatten_nil,List.append_nil]
        omega
      · rw [next']
        simp only [List.length_cons]
        split <;> split <;> omega

theorem flatten_length_le (us : List (List UInt8)) (chars : ∀ u ∈ us, IsChar u) : us.length ≤ us.flatten.length := by
  induction us with
  | nil => simp
  | cons u us ih =>
    have some' := (chars u (List.mem_cons_self ..)).positive
    have rest := ih fun u present => chars u (List.mem_cons_of_mem _ present)
    simp only [List.length_cons,List.flatten_cons,List.length_append]
    omega

theorem splitChars_linked (us : List (List UInt8)) (chars : ∀ u ∈ us, IsChar u) (some' : us ≠ []) :
    Linked (splitChars us.flatten) 0 0 (singles 0 us) ∧ (splitChars us.flatten).length = us.length := by
  have loop := @splitLoop_get us.flatten us chars us.flatten.length 0 0 (by simp) (flatten_length_le us chars)
  have length : (splitLoop us.flatten us.flatten.length 0 0).length = us.length := by
    have none_iff : ∀ j : Nat, (splitLoop us.flatten us.flatten.length 0 0)[j]? = none ↔ us[j]? = none := by
      intro j; rw [loop j]; simp
    have here := none_iff us.length
    have there := none_iff (splitLoop us.flatten us.flatten.length 0 0).length
    simp only [List.getElem?_eq_none_iff,Nat.le_refl,true_iff,iff_true] at here there
    omega
  refine ⟨linked_singles us 0 0 some' fun j u listed => ?_,by simpa [splitChars] using length⟩
  have inside := (List.getElem?_eq_some_iff.mp listed).1
  simp only [splitChars,length,List.getElem?_modify,loop,Nat.zero_add,listed,Option.map_some]
  by_cases last : us.length-1 = j
  · have ends : j+1 = us.length := by omega
    simp [last,ends]
  · have goes : ¬j+1 = us.length := by omega
    simp [last,goes]

end split

-- A piece of the vocabulary.
def Known (v : Vocab) (piece : List UInt8) : Prop := ∃ k ∈ v.token, keyName k = (piece.length,piece)

theorem lookup_sound {v : Vocab} {id : Int} (indexed : v.Indexed) (short : len ≤ 255)
    (hit : vocabLookupLen v.tokens text len = some id) :
    ∃ (i : Nat) (k : Key), v.token[i]? = some k ∧ k.bytes = text.take len ∧ id = i := by
  obtain ⟨i,s,listed,named,value⟩ := indexed.sound hit
  have bytes := (Prod.mk.inj named).2
  rw [u8_of_lt (show len < 2^8 by omega)] at bytes
  exact ⟨i,s,listed,bytes,value⟩

theorem lookup_known {v : Vocab} (indexed : v.Indexed) (short : len ≤ 255) (inside : len ≤ text.length) :
    (vocabLookupLen v.tokens text len).isSome ↔ Known v (text.take len) := by
  have name : keyName ⟨u8 len,text⟩ = ((text.take len).length,text.take len) := by
    rw [u8_of_lt (show len < 2^8 by omega),List.length_take,Nat.min_eq_left inside]
    rfl
  constructor
  · intro hit
    obtain ⟨id,hit⟩ := Option.isSome_iff_exists.mp hit
    obtain ⟨i,s,listed,named,_⟩ := indexed.sound hit
    exact ⟨s,List.mem_of_getElem? listed,named.trans name⟩
  · rintro ⟨k,present,named⟩
    have hit := lastPut_present v.token 0 ⟨u8 len,text⟩ none (.inr ⟨k,present,named.trans name.symm⟩)
    rwa [← indexed.get] at hit

section joins
variable {v : Vocab} {scores : List Nat} {norm : List UInt8}

-- Everything but the two joined symbols keeps what a walk reads.
theorem joinAt_kept (first : sym[k]? = some s) (second : sym[s.next.toNat]? = some r) (other : j ≠ k)
    (other' : j ≠ s.next.toNat) (held : sym[j]? = some t) : ∃ t', (joinAt sym k)[j]? = some t' ∧ SameLink t t' := by
  have before : ((sym.set k {s with n:=s.n+r.n,next:=r.next}).set s.next.toNat {r with n:=0})[j]? = some t := by
    rw [List.getElem?_set_ne other'.symm,List.getElem?_set_ne other.symm,held]
  simp only [joinAt,first,second]
  split
  · rw [List.getElem?_modify,before]
    by_cases next : r.next.toNat = j
    · exact ⟨{t with prev:=k},by simp [next],rfl,rfl,rfl⟩
    · exact ⟨t,by simp [next],rfl,rfl,rfl⟩
  · exact ⟨t,before,rfl,rfl,rfl⟩

theorem joinAt_joined (first : sym[k]? = some s) (second : sym[s.next.toNat]? = some r) (apart : s.next.toNat ≠ k) :
    ∃ t, (joinAt sym k)[k]? = some t ∧ SameLink {s with n:=s.n+r.n,next:=r.next} t := by
  have inside := (List.getElem?_eq_some_iff.mp first).1
  have before : ((sym.set k {s with n:=s.n+r.n,next:=r.next}).set s.next.toNat {r with n:=0})[k]? =
      some {s with n:=s.n+r.n,next:=r.next} := by
    rw [List.getElem?_set_ne apart,List.getElem?_set_self inside]
  simp only [joinAt,first,second]
  split
  · rw [List.getElem?_modify,before]
    by_cases next : r.next.toNat = k
    · exact ⟨{s with n:=s.n+r.n,next:=r.next,prev:=k},by simp [next],rfl,rfl,rfl⟩
    · exact ⟨_,by simp [next],rfl,rfl,rfl⟩
  · exact ⟨_,before,rfl,rfl,rfl⟩

theorem joinAt_length (sym : List SpmSym) (k : Nat) : (joinAt sym k).length = sym.length := by
  unfold joinAt
  split
  · rfl
  · split
    · rfl
    · dsimp only
      split <;> simp

theorem linked_pair (front : List Node) : ∀ off i, Linked sym off i (front++(k,g) :: (r,h) :: rest) →
    ∃ s t, sym[k]? = some s ∧ sym[s.next.toNat]? = some t ∧ s.next.toNat = r := by
  induction front with
  | nil =>
    intro off i linked
    obtain ⟨_,_,s,held,_,_,next,_,t,held',_⟩ := linked
    have index : s.next.toNat = r := by omega
    exact ⟨s,t,held,by rw [index]; exact held',index⟩
  | cons node front ih =>
    intro off i linked
    obtain ⟨_,_,_,_,_,_,tail⟩ := linked
    exact ih _ _ tail

theorem joinAt_linked (front : List Node) : ∀ off i,
    Linked sym off i (front++(k,g) :: (r,h) :: rest) → Linked (joinAt sym k) off i (front++(k,g++h) :: rest) := by
  induction front with
  | nil =>
    intro off i linked
    obtain ⟨here,later,s,held,at',size,tail⟩ := linked
    obtain ⟨next,later',t,held',at'',size',tail'⟩ := tail
    have index : s.next.toNat = r := by omega
    have rises : k < r := later (r,h) (List.mem_cons_self ..)
    rw [← index] at held'
    obtain ⟨u,joined,same⟩ := joinAt_joined held held' (by omega)
    refine ⟨here,fun node present => later node (List.mem_cons_of_mem _ present),u,joined,same.1.trans at',?_,?_⟩
    · rw [same.2.1,List.flatten_append,List.length_append,← size,← size']
    · rw [same.2.2,List.flatten_append,List.length_append,← Nat.add_assoc]
      refine Linked.frame rest _ _ tail' fun node present t' there => ?_
      have above := later' node present
      exact joinAt_kept held held' (by omega) (by omega) there
  | cons node front ih =>
    intro off i linked
    obtain ⟨here,later,s,held,at',size,tail⟩ := linked
    have before : node.1 < k ∧ node.1 < r :=
      ⟨later (k,g) (by simp),later (r,h) (by simp)⟩
    obtain ⟨s₁,s₂,first,second,next⟩ := linked_pair front _ _ tail
    obtain ⟨t,held',same⟩ := joinAt_kept first second (j:=node.1) (by omega) (by omega) held
    refine ⟨here,?_,t,held',same.1.trans at',same.2.1.trans size,?_⟩
    · intro node' present
      rcases List.mem_append.mp present with inFront | inRest
      · exact later node' (List.mem_append_left _ inFront)
      · rcases List.mem_cons.mp inRest with rfl | inRest
        · exact before.1
        · exact later node' (List.mem_append_right _ (List.mem_cons_of_mem _ (List.mem_cons_of_mem _ inRest)))
    · rw [same.2.2]
      exact ih _ _ tail

-- What the encoder joins: two nodes that spell a known piece.
def Joins (v : Vocab) (a b : Node) : Prop := (a.2++b.2).flatten.length ≤ 255 ∧ Known v (a.2++b.2).flatten

theorem joinScore_joins (indexed : v.Indexed) (rest : norm.drop off = (a.2++b.2).flatten++more)
    (size : len = (a.2++b.2).flatten.length) : (joinScore v scores norm off len).isSome ↔ Joins v a b := by
  have spelled : (norm.drop off).take len = (a.2++b.2).flatten := by rw [rest,size,List.take_left]
  have inside : len ≤ (norm.drop off).length := by rw [rest,size,List.length_append]; omega
  unfold joinScore
  by_cases long : len > 255
  · have apart : ¬Joins v a b := fun joins => by have := joins.1; omega
    simp [long,apart]
  · have known := lookup_known indexed (by omega) inside
    rw [if_neg long,Joins,← size,← spelled]
    cases found : vocabLookupLen v.tokens (norm.drop off) len with
    | none =>
      rw [found] at known
      have unknown := mt known.mpr (by simp)
      simp [unknown]
    | some id =>
      rw [found] at known
      obtain ⟨i,k,listed,_,rfl⟩ := lookup_sound indexed (by omega) found
      have below := (List.getElem?_eq_some_iff.mp listed).1
      have count := indexed.count
      simp only [int32Max] at count
      have fits : ¬((i : Int)%2^32).toNat ≥ v.nVocab := by
        simp only [Vocab.nVocab,ge_iff_le,not_le]
        omega
      have short : len ≤ 255 := by omega
      simp only [if_neg fits,Option.isSome_some,true_iff]
      exact ⟨short,known.mp rfl⟩

-- The pass stops at nothing only when no pair joins, and at a pair that joins else.
theorem bestJoin_finds (indexed : v.Indexed) (nodes : List Node) : ∀ fuel off i best, Linked sym off i nodes →
    norm.drop off = (nodes.flatMap Prod.snd).flatten → nodes.length ≤ fuel →
    (bestJoin v scores norm sym fuel i best = none → best = none ∧ nodes.IsChain fun a b => ¬Joins v a b) ∧
    ∀ P : Int → Prop, (∀ b sc, best = some (b,sc) → P b) → (∀ a b, [a,b] <:+: nodes → Joins v a b → P a.1) →
      ∀ b sc, bestJoin v scores norm sym fuel i best = some (b,sc) → P b := by
  induction nodes with
  | nil =>
    intro fuel off i best linked _ _
    have same : bestJoin v scores norm sym fuel i best = best := by
      cases fuel with
      | zero => rfl
      | succ fuel => rw [bestJoin,if_pos ((linked_next linked).mpr rfl)]
    rw [same]
    exact ⟨fun none' => ⟨none',.nil⟩,fun P carried _ => carried⟩
  | cons a rest ih =>
    intro fuel off i best linked covered enough
    obtain ⟨fuel,rfl⟩ : ∃ f, fuel = f+1 := ⟨fuel-1,by simp only [List.length_cons] at enough; omega⟩
    obtain ⟨here,inside,index⟩ := linked_nat linked
    obtain ⟨_,_,s,held,at',size,tail⟩ := linked
    rw [bestJoin,if_neg inside,index,held]
    dsimp only
    cases rest with
    | nil =>
      rw [if_pos ((linked_next tail).mpr rfl)]
      exact ⟨fun none' => ⟨none',.singleton a⟩,fun P carried _ => carried⟩
    | cons b rest =>
      obtain ⟨_,inside',index'⟩ := linked_nat tail
      obtain ⟨_,_,t,held',_,size',_⟩ := id tail
      have length : s.n+t.n = (a.2++b.2).flatten.length := by
        rw [size,size',List.flatten_append,List.length_append]
      have cut : norm.drop off = (a.2++b.2).flatten++(rest.flatMap Prod.snd).flatten := by
        rw [covered]
        simp only [List.flatMap_cons,List.flatten_append,List.append_assoc]
      have covered' : norm.drop (off+a.2.flatten.length) = ((b :: rest).flatMap Prod.snd).flatten := by
        rw [← List.drop_drop,covered,List.flatMap_cons,List.flatten_append,List.drop_left]
      have joins : (joinScore v scores norm off (s.n+t.n)).isSome ↔ Joins v a b := joinScore_joins indexed cut length
      rw [← at'] at joins
      have pass := fun best => ih fuel _ _ best tail covered' (by simpa using enough)
      rw [if_neg inside',index',held']
      dsimp only
      cases scored : joinScore v scores norm s.off (s.n+t.n) with
      | none =>
        rw [scored] at joins
        have apart : ¬Joins v a b := mt joins.mpr (by simp)
        refine ⟨fun none' => ?_,fun P carried listed => ?_⟩
        · obtain ⟨unset,chain⟩ := (pass best).1 none'
          exact ⟨unset,List.isChain_cons_cons.mpr ⟨apart,chain⟩⟩
        · exact (pass best).2 P carried fun a' b' inside => listed a' b' (inside.trans (List.suffix_cons ..).isInfix)
      | some sc =>
        rw [scored] at joins
        have together := joins.mp rfl
        dsimp only
        refine ⟨fun none' => ?_,fun P carried listed => ?_⟩
        · have unset := ((pass _).1 none').1
          cases best with
          | none => simp [better] at unset
          | some best =>
            split at unset
            · simp at unset
            · simp at unset
        · refine (pass _).2 P ?_ fun a' b' inside => listed a' b' (inside.trans (List.suffix_cons ..).isInfix)
          intro b' sc' chosen
          split at chosen
          · obtain ⟨rfl,_⟩ := Prod.mk.inj (Option.some.inj chosen)
            rw [here]
            exact listed a b (List.prefix_append [a,b] rest).isInfix together
          · exact carried b' sc' chosen

-- A single character, or a known piece.
def Fine (v : Vocab) (node : Node) : Prop :=
  (∃ u, node.2 = [u]) ∨ (node.2.flatten.length ≤ 255 ∧ Known v node.2.flatten)

theorem joinLoop_saturates (indexed : v.Indexed) (fuel : Nat) : ∀ (sym : List SpmSym) (nodes : List Node),
    Linked sym 0 0 nodes → norm = (nodes.flatMap Prod.snd).flatten → nodes.length ≤ fuel →
    (∀ node ∈ nodes, Fine v node) →
    ∃ nodes', Linked (joinLoop v scores norm fuel sym) 0 0 nodes' ∧ nodes'.flatMap Prod.snd = nodes.flatMap Prod.snd ∧
      (∀ node ∈ nodes', Fine v node) ∧ (nodes'.IsChain fun a b => ¬Joins v a b) ∧ nodes'.length ≤ nodes.length := by
  induction fuel with
  | zero =>
    intro sym nodes linked _ few fine
    obtain rfl := List.eq_nil_of_length_eq_zero (Nat.le_zero.mp few)
    exact ⟨[],linked,rfl,fine,.nil,Nat.le_refl _⟩
  | succ fuel ih =>
    intro sym nodes linked covered few fine
    obtain ⟨stop,found⟩ := @bestJoin_finds v scores norm sym indexed nodes sym.length 0 0 none linked covered
      linked.length_le
    rw [joinLoop]
    cases best : bestJoin v scores norm sym sym.length 0 none with
    | none => exact ⟨nodes,linked,rfl,fine,(stop best).2,Nat.le_refl _⟩
    | some chosen =>
      obtain ⟨a,b,⟨front,rest,rfl⟩,together,at'⟩ := found (fun i => ∃ a b, [a,b] <:+: nodes ∧ Joins v a b ∧ i = a.1)
        (by simp) (fun a b inside together => ⟨a,b,inside,together,rfl⟩) chosen.1 chosen.2 best
      have cut : front++[a,b]++rest = front++a :: b :: rest := by simp
      rw [cut] at linked covered few fine ⊢
      have joined := joinAt_linked front 0 0 linked
      have same : (front++(a.1,a.2++b.2) :: rest).flatMap Prod.snd = (front++a :: b :: rest).flatMap Prod.snd := by
        simp only [List.flatMap_append,List.flatMap_cons,List.append_assoc]
      have shorter : (front++(a.1,a.2++b.2) :: rest).length < (front++a :: b :: rest).length := by
        simp only [List.length_append,List.length_cons]; omega
      have fine' : ∀ node ∈ front++(a.1,a.2++b.2) :: rest, Fine v node := by
        intro node present
        rcases List.mem_append.mp present with inFront | inRest
        · exact fine node (List.mem_append_left _ inFront)
        · rcases List.mem_cons.mp inRest with rfl | inRest
          · exact .inr together
          · exact fine node (List.mem_append_right _ (List.mem_cons_of_mem _ (List.mem_cons_of_mem _ inRest)))
      obtain ⟨nodes',linked',same',fine'',chain,length⟩ := ih (joinAt sym a.1) _ joined (covered.trans (by rw [same]))
        (by omega) fine'
      have index : chosen.1.toNat = a.1 := by omega
      dsimp only
      rw [index]
      exact ⟨nodes',linked',same'.trans same,fine'',chain,by omega⟩

theorem walk_linked (nodes : List Node) : ∀ fuel off i, Linked sym off i nodes →
    norm.drop off = (nodes.flatMap Prod.snd).flatten → nodes.length ≤ fuel →
    List.Forall₂ (fun s (node : Node) => s.n = node.2.flatten.length ∧ symText norm s = node.2.flatten)
      (walk sym fuel i) nodes := by
  induction nodes with
  | nil =>
    intro fuel off i linked _ _
    cases fuel with
    | zero => exact .nil
    | succ fuel =>
      rw [walk,if_pos ((linked_next linked).mpr rfl)]
      exact .nil
  | cons node rest ih =>
    intro fuel off i linked covered enough
    obtain ⟨fuel,rfl⟩ : ∃ f, fuel = f+1 := ⟨fuel-1,by simp only [List.length_cons] at enough; omega⟩
    obtain ⟨_,inside,index⟩ := linked_nat linked
    obtain ⟨_,_,s,held,at',size,tail⟩ := linked
    rw [walk,if_neg inside,index,held]
    rw [List.flatMap_cons,List.flatten_append] at covered
    refine .cons ⟨size,?_⟩ (ih fuel _ _ tail ?_ (by simpa using enough))
    · rw [symText,at',size,covered,List.take_left]
    · rw [← List.drop_drop,covered,List.drop_left]

theorem spmSymbols_segments (indexed : v.Indexed) (us : List (List UInt8)) (chars : ∀ u ∈ us, IsChar u) :
    ∃ nodes : List Node, nodes.flatMap Prod.snd = us ∧ (∀ node ∈ nodes, Fine v node) ∧
      (nodes.IsChain fun a b => ¬Joins v a b) ∧
      List.Forall₂ (fun s (node : Node) => s.n = node.2.flatten.length ∧ symText us.flatten s = node.2.flatten)
        (spmSymbols v scores us.flatten) nodes := by
  by_cases some' : us = []
  · subst some'
    exact ⟨[],rfl,by simp,.nil,.nil⟩
  · obtain ⟨linked,length⟩ := splitChars_linked us chars some'
    have spelled := singles_chars us 0
    have fine : ∀ node ∈ singles 0 us, Fine v node := by
      have all : ∀ (us : List (List UInt8)) k, ∀ node ∈ singles k us, Fine v node := by
        intro us
        induction us with
        | nil => intro k node present; simp [singles] at present
        | cons u us ih =>
          intro k node present
          rcases List.mem_cons.mp present with rfl | later
          · exact .inl ⟨u,rfl⟩
          · exact ih (k+1) node later
      exact all us 0
    have few := linked.length_le
    obtain ⟨nodes,linked',same,fine',chain,length'⟩ := @joinLoop_saturates v scores us.flatten indexed
      (splitChars us.flatten).length (splitChars us.flatten) (singles 0 us) linked (by rw [spelled]) few fine
    rw [spelled] at same
    refine ⟨nodes,same,fine',chain,walk_linked nodes _ 0 0 linked' (by rw [same,List.drop_zero]) (by omega)⟩

end joins

end TinyLlama.Tokenizer
