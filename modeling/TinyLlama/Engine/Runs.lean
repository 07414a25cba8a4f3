import TinyLlama.Engine.Decoded
import TinyLlama.Graph.Recorded

namespace TinyLlama.Engine
open Gguf TinyLlama.Graph Causal Graph.Executor

variable {β K : Type}

section runs
variable {p : Executor β K} {M : Meaning β K} {valid : Nat → Prop} {s : Session} {ws : ArchWorkspace} {g : Graph} {nTokens : Nat}

theorem run_decodes (copies : M.Copies) (built : archBuild s ws nTokens = some g) (graph : p.g = assignBackends s g.nodes) (cfg : p.c = s.cfg)
    (ready : p.Ready M valid) {state : SessionState β K} (fresh : p.Fresh state) (calls : List (Call β K)) {call : Call β K}
    (known : ∀ call' ∈ call :: calls,∀ t < call'.nTokens,valid (call'.tokens t)) (harmless : p.HarmlessRun calls state)
    (ended : (p.graphExecute call (p.run calls state).2).2 = true) :
    let ids := history (p.kept calls state)++call.ids
    let size := p.publishedBytes (p.g.length-1)
    ids.length ≤ p.ctxSize ∧ (List.range size).map (p.graphExecute call (p.run calls state).2).1.logits =
      (archDecoder (M.op s.cfg (tokenAt ids)) s ws (ids.length-1)).take size := by
  intro ids size
  obtain ⟨room,tells⟩ := run_then_tells ready fresh calls known harmless ended
  refine ⟨room,tells.trans ?_⟩
  have decodes := (build_decodes copies (rfl : M.op s.cfg (tokenAt ids) = _) built).2
  have length : p.g.length = g.nodes.length := by rw [graph,assignBackends,List.length_map]
  rw [← decodes,← @placed_output β K M (tokenAt ids) s g.nodes,← graph,← cfg,← length]

end runs

theorem placed_built {s : Session} {nodes : List GraphNode} (built : WellBuilt nodes) : WellBuilt (assignBackends s nodes) := by
  have length : (assignBackends s nodes).length = nodes.length := List.length_map _
  have sources (i : Nat) : sourcesOf (assignBackends s nodes) i = sourcesOf nodes i := by
    rw [sourcesOf,sourcesOf,assignBackends,List.getElem?_map,Option.map_map]
    rfl
  have input (i : Nat) : isInput (assignBackends s nodes) i = isInput nodes i := by
    rw [isInput,isInput,assignBackends,List.getElem?_map,Option.map_map]
    rfl
  have sink (i : Nat) : isSink (assignBackends s nodes) i = isSink nodes i := by
    rw [isSink,isSink,assignBackends,List.all_map]
    rfl
  refine ⟨fun i j listed => built.back i j (sources i ▸ listed),?_,fun i low computes => ?_,?_⟩
  · simp only [length,input]
    exact built.inputs
  · rw [sink,length]
    exact built.last i (length ▸ low) (input i ▸ computes)
  · simp only [length,input]
    exact built.some

end TinyLlama.Engine
