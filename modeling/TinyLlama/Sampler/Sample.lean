import TinyLlama.Sampler.Penalty
import TinyLlama.Sampler.SelectTop

-- sampler.c: sample_token. The arithmetic is exact; expf, qsort, the allocator and rng_float's number are parameters.
namespace TinyLlama.Sampler
open Heap Sweep

section Operations
variable {K : Type} [Field K] [LinearOrder K]

-- What the code takes from outside.
structure Env (K : Type) where
  exp : K → K
  qsort : List (ProbIdx K) → List (ProbIdx K)
  alloc : Nat → Bool

def defaultEps : K := 1/1000000

def sampleGreedy (logits : Nat → K) (nVocab : Nat) : Nat :=
  ((nVocab-1).fold (fun i _ (best : Nat × K) => if logits (i+1) > best.2 then (i+1,logits (i+1)) else best) (0,logits 0)).1

def maxScaled (logits : Nat → K) (nVocab : Nat) (invTemp : K) : K :=
  (nVocab-1).fold (fun i _ maxL => let v := logits (i+1)*invTemp; if v > maxL then v else maxL) (logits 0*invTemp)

def numerators (exp : K → K) (logits : Nat → K) (nVocab : Nat) (invTemp maxL : K) : (Nat → K) × K :=
  nVocab.fold (fun i _ (s : (Nat → K) × K) =>
    let v := exp (s.1 i*invTemp-maxL)
    (Function.update s.1 i v,s.2+v)) (logits,0)

-- The entries from i on before the first below the threshold, i counted.
def minPFrom (pi : Nat → ProbIdx K) (threshold : K) : Nat → Nat → Nat
  | 0,i => i
  | rest+1,i => if (pi i).prob ≥ threshold then minPFrom pi threshold rest (i+1) else i

def minPCut (p : SampleParam K) (pi : Nat → ProbIdx K) (cutoff : Nat) : Nat :=
  if p.minP > defaultEps ∧ cutoff > 0 then
    let newCutoff := minPFrom pi (p.minP*(pi 0).prob) cutoff 0
    if newCutoff > 0 then newCutoff else cutoff
  else cutoff

def topPFrom (pi : Nat → ProbIdx K) (topP : K) : Nat → Nat → K → Option Nat
  | 0,_,_ => none
  | rest+1,i,cum =>
    let cum := cum+(pi i).prob
    if cum ≥ topP then some (i+1) else topPFrom pi topP rest (i+1) cum

def topPCut (p : SampleParam K) (pi : Nat → ProbIdx K) (cutoff : Nat) : Nat :=
  if p.topP < 1 then
    let pCutoff := (topPFrom pi p.topP cutoff 0 0).getD cutoff
    if pCutoff < cutoff then pCutoff else cutoff
  else cutoff

structure Candidates (K : Type) where
  pi : Nat → ProbIdx K
  filled : Nat
  cutoff : Nat

def selectPass (env : Env K) (p : SampleParam K) (nVocab : Nat) (vals : Nat → K) (invSum : K) (cap : Nat) (pi : Nat → ProbIdx K) :
    Candidates K :=
  let s := selectTop pi cap vals nVocab
  let pi := sortDesc env.qsort s.heap s.filled
  let pi := s.filled.fold (fun i _ pi => Function.update pi i ⟨(pi i).prob*invSum,(pi i).idx⟩) pi
  ⟨pi,s.filled,topPCut p pi (minPCut p pi s.filled)⟩

-- The capacity grows in every round, so the vocabulary bounds the rounds.
def selectLoop (env : Env K) (p : SampleParam K) (nVocab : Nat) (vals : Nat → K) (invSum : K) :
    Nat → Nat → (Nat → ProbIdx K) → Candidates K
  | 0,_,pi => ⟨pi,0,0⟩
  | fuel+1,cap,pi =>
    let c := selectPass env p nVocab vals invSum cap pi
    if p.topK > 0 then c
    else if c.cutoff < c.filled ∨ cap ≥ nVocab then c
    else
      let ncap := if cap > nVocab/4 then nVocab else cap*4
      if env.alloc ncap then selectLoop env p nVocab vals invSum fuel ncap c.pi else c

def startCap (topK nVocab : Nat) : Nat :=
  let cap := if topK > 0 then topK else 64
  if cap > nVocab then nVocab else cap

def retained (env : Env K) (p : SampleParam K) (nVocab : Nat) (vals : Nat → K) (sum : K) : (Nat → ProbIdx K) × Nat :=
  let c := selectLoop env p nVocab vals (1/sum) nVocab (startCap p.topK nVocab) fun _ => ⟨0,0⟩
  (c.pi,if c.cutoff < 1 then 1 else c.cutoff)

def cdfFrom (pi : Nat → ProbIdx K) (rnInv r : K) : Nat → Nat → K → Option Nat
  | 0,_,_ => none
  | rest+1,i,cdf =>
    let cdf := cdf+(pi i).prob*rnInv
    if r < cdf then some i else cdfFrom pi rnInv r rest (i+1) cdf

def draw (pi : Nat → ProbIdx K) (cutoff : Nat) (r : K) : Nat :=
  let renorm := cutoff.fold (fun i _ renorm => renorm+(pi i).prob) 0
  let rnInv := if renorm > 0 then 1/renorm else 1
  (pi ((cdfFrom pi rnInv r cutoff 0 0).getD (cutoff-1))).idx

def sampleToken (env : Env K) (p : SampleParam K) (nVocab : Nat) (history : Option (Nat → Nat)) (nHistory : Nat) (r : K)
    (logits : Nat → K) : Nat :=
  let logits := penaltyStage p nVocab history nHistory logits
  if p.temperature ≤ defaultEps then sampleGreedy logits nVocab
  else if p.topK = 0 ∧ p.topP ≥ 1 ∧ p.minP ≤ defaultEps then sampleGreedy logits nVocab
  else
    let invTemp := 1/p.temperature
    let (vals,sum) := numerators env.exp logits nVocab invTemp (maxScaled logits nVocab invTemp)
    if env.alloc (startCap p.topK nVocab) then
      let (pi,cutoff) := retained env p nVocab vals sum
      draw pi cutoff r
    else sampleGreedy vals nVocab

end Operations

end TinyLlama.Sampler
