import TinyLlama.Lib.Sweep

-- Means weighted by a function that turns sums into products.
namespace TinyLlama.Softmax

structure Exponential {K : Type} [Field K] [LinearOrder K] (exp : K → K) : Prop where
  pos : ∀ x,0 < exp x
  add : ∀ x y,exp (x+y) = exp x*exp y

section Means
variable {K ι : Type} [Field K]

def mass (exp : K → K) (s : Finset ι) (score : ι → K) (shift : K) : K := ∑ i ∈ s,exp (score i-shift)

def weighted (exp : K → K) (s : Finset ι) (score value : ι → K) (shift : K) : K := ∑ i ∈ s,exp (score i-shift)*value i

def softmaxMean (exp : K → K) (s : Finset ι) (score value : ι → K) : K :=
  (∑ i ∈ s,exp (score i)*value i)/∑ i ∈ s,exp (score i)

theorem sum_weights (exp : K → K) (s : Finset ι) (score value : ι → K) (shift : K) :
    ∑ i ∈ s,exp (score i-shift)/mass exp s score shift*value i = weighted exp s score value shift/mass exp s score shift := by
  rw [weighted,Finset.sum_div]
  exact Finset.sum_congr rfl fun i _ => by rw [div_mul_eq_mul_div]

variable [LinearOrder K] {exp : K → K} {s : Finset ι} {score value : ι → K}

theorem mean_shift (laws : Exponential exp) (shift : K) :
    weighted exp s score value shift/mass exp s score shift = softmaxMean exp s score value := by
  have split : ∀ x,exp (x-shift) = exp x*exp (-shift) := fun x => by rw [sub_eq_add_neg,laws.add]
  have total : mass exp s score shift = (∑ i ∈ s,exp (score i))*exp (-shift) := by
    rw [mass,Finset.sum_mul]
    exact Finset.sum_congr rfl fun i _ => split _
  have above : weighted exp s score value shift = (∑ i ∈ s,exp (score i)*value i)*exp (-shift) := by
    rw [weighted,Finset.sum_mul]
    refine Finset.sum_congr rfl fun i _ => ?_
    rw [split]
    ring
  rw [total,above,mul_div_mul_right _ _ (laws.pos (-shift)).ne']
  rfl

end Means

section Streams
variable {K ι δ : Type} [Field K]

-- exp (a - b) where either may be minus infinity.
def expDiff (exp : K → K) : WithBot K → WithBot K → K
  | (a : K),(b : K) => exp (a-b)
  | _,_ => 0

-- Sum and accumulator relative to the shift m; no shift before the first score.
structure Streamed (exp : K → K) (s : Finset ι) (score : ι → K) (value : ι → δ → K) (m : WithBot K) (l : K) (acc : δ → K) :
    Prop where
  started : m = ⊥ → s = ∅
  sum : l = ∑ i ∈ s,expDiff exp (score i) m
  total : ∀ d,acc d = ∑ i ∈ s,expDiff exp (score i) m*value i d

variable {exp : K → K} {s t : Finset ι} {score : ι → K} {value : ι → δ → K} {m : WithBot K} {l : K} {acc : δ → K}

theorem streamed_empty : Streamed exp ∅ score value ⊥ 0 fun _ => 0 :=
  ⟨fun _ => rfl,by simp,fun d => by simp⟩

variable [LinearOrder K]

theorem expDiff_mul (laws : Exponential exp) (a b c : K) : expDiff exp a b*expDiff exp b c = expDiff exp a c := by
  simp only [expDiff]
  rw [← laws.add]
  congr 1
  ring

theorem rescale (laws : Exponential exp) (started : m = ⊥ → s = ∅) (m' : K) (f : ι → K) :
    (∑ i ∈ s,expDiff exp (score i) m*f i)*expDiff exp m m' = ∑ i ∈ s,expDiff exp (score i) m'*f i := by
  cases m with
  | bot => simp [started rfl]
  | coe m =>
    rw [Finset.sum_mul]
    refine Finset.sum_congr rfl fun i _ => ?_
    rw [← expDiff_mul laws (score i) m m']
    ring

theorem streamed_tile (laws : Exponential exp) (before : Streamed exp s score value m l acc) [DecidableEq ι] (apart : Disjoint s t)
    (m' : K) : Streamed exp (s ∪ t) score value m' (l*expDiff exp m m'+∑ i ∈ t,expDiff exp (score i) m')
      (fun d => acc d*expDiff exp m m'+∑ i ∈ t,expDiff exp (score i) m'*value i d) := by
  obtain ⟨started,sum,total⟩ := before
  refine ⟨fun none' => absurd none' (WithBot.coe_ne_bot),?_,fun d => ?_⟩
  · have moved := @rescale K ι _ exp s score m _ laws started m' fun _ => 1
    simp only [mul_one] at moved
    rw [sum,moved,Finset.sum_union apart]
  · rw [total,rescale laws started,Finset.sum_union apart]

theorem streamed_mean (laws : Exponential exp) (done : Streamed exp s score value m l acc) (some' : s.Nonempty) (d : δ) :
    acc d/l = softmaxMean exp s score (value · d) := by
  obtain ⟨started,sum,total⟩ := done
  cases m with
  | bot => exact absurd (started rfl) some'.ne_empty
  | coe m =>
    rw [sum,total d]
    exact mean_shift laws m

end Streams

end TinyLlama.Softmax
