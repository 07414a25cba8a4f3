import TinyLlama.Lib.Handles

-- gpu.cu: the device copies of the weights, found by the tensor's identity.
namespace TinyLlama.Gpu
open Ownership

def gpuCacheMax : Nat := 4096

structure CacheTensor where
  data : Nat
  ti : Nat
  nElement : Nat
  type : Nat
  offset : Nat
  payload : List UInt8
deriving Repr,DecidableEq

structure CacheEntry where
  base : Nat
  ti : Nat
  dev : Nat
  elems : Nat
  bytes : Nat
  type : Nat
  off : Nat
deriving Repr,DecidableEq

-- Device addresses, the issue of each that is live, and what a live one holds.
structure DeviceHeap where
  buffers : Handles Nat
  bytes : Nat → List UInt8

def DeviceHeap.Live (h : DeviceHeap) (d : Nat) : Prop := h.buffers.holder d ≠ none

def DeviceHeap.cudaFree (h : DeviceHeap) (d : Nat) : DeviceHeap := if d = 0 then h else {h with buffers := h.buffers.close d}

-- What the driver answers in one call: cudaMalloc refuses or gives an address that is not
-- in use (NULL for nothing), and the copy succeeds or not.
structure Upload where
  cudaMalloc : DeviceHeap → Option Nat
  copied : Bool
  fresh : ∀ h d,cudaMalloc h = some d → h.buffers.holder d = none

def gpuCacheUpload (h : DeviceHeap) (ti : CacheTensor) (up : Upload) : DeviceHeap × Nat :=
  match up.cudaMalloc h with
  | none => (h,0)
  | some d =>
    let taken := if d = 0 then h else {h with buffers := h.buffers.issue d}
    if up.copied then ({taken with bytes := Function.update taken.bytes d ti.payload},d) else (taken.cudaFree d,0)

structure WeightCache where
  entries : List CacheEntry
  heap : DeviceHeap

def CacheEntry.key (e : CacheEntry) : Nat × Nat := (e.base,e.ti)
def CacheTensor.key (ti : CacheTensor) : Nat × Nat := (ti.data,ti.ti)

def CacheEntry.snapshot (e : CacheEntry) (ti : CacheTensor) : Bool :=
  e.elems = ti.nElement ∧ e.bytes = ti.payload.length ∧ e.type = ti.type ∧ e.off = ti.offset

-- The first entry of an identity, with the entries before and after it.
def findEntry (key : Nat × Nat) : List CacheEntry → Option (List CacheEntry × CacheEntry × List CacheEntry)
  | [] => none
  | e :: rest =>
    if e.key = key then some ([],e,rest)
    else (findEntry key rest).map fun place => (e :: place.1,place.2)

def cacheEntry (ti : CacheTensor) (d : Nat) : CacheEntry := ⟨ti.data,ti.ti,d,ti.nElement,ti.payload.length,ti.type,ti.offset⟩

def gpuCacheGet (s : WeightCache) (ti : CacheTensor) (up : Upload) : WeightCache × Nat :=
  match findEntry ti.key s.entries with
  | some (before,e,after) =>
    if e.snapshot ti then (s,e.dev)
    else
      let sent := gpuCacheUpload (s.heap.cudaFree e.dev) ti up
      if sent.2 = 0 then ({s with heap := sent.1},0)
      else (⟨before++{cacheEntry ti sent.2 with base := e.base, ti := e.ti}::after,sent.1⟩,sent.2)
  | none =>
    if s.entries.length ≥ gpuCacheMax ∨ ti.payload.length = 0 then (s,0)
    else
      let sent := gpuCacheUpload s.heap ti up
      if sent.2 = 0 then ({s with heap := sent.1},0)
      else (⟨s.entries++[cacheEntry ti sent.2],sent.1⟩,sent.2)

def gpuShutdown (s : WeightCache) : WeightCache := ⟨[],s.entries.foldl (fun h e => h.cudaFree e.dev) s.heap⟩

abbrev CacheCall := CacheTensor × Upload

-- A run from the empty cache, with the bytes that each identity had when it was last
-- given a pointer.
structure CacheRun where
  cache : WeightCache
  sent : Nat × Nat → List UInt8

def CacheRun.get (r : CacheRun) (call : CacheCall) : CacheRun :=
  let got := gpuCacheGet r.cache call.1 call.2
  ⟨got.1,if got.2 = 0 then r.sent else Function.update r.sent call.1.key call.1.payload⟩

def emptyCache : WeightCache := ⟨[],⟨⟨fun _ => none,0,[]⟩,fun _ => []⟩⟩

def cacheRun (calls : List CacheCall) : CacheRun := calls.foldl CacheRun.get ⟨emptyCache,fun _ => []⟩

-- What a cache may be left as: no entry is dead, a live buffer has one entry, and shutting
-- down frees every buffer ever taken that is not free yet, once, and nothing else.
structure CacheSound (s : WeightCache) : Prop where
  alive : ∀ e ∈ s.entries,s.heap.Live e.dev
  owned : ∀ d,s.heap.Live d → (s.entries.map CacheEntry.dev).count d = 1
  shutdown : let closes := (gpuShutdown s).heap.buffers.closes
    none ∉ closes ∧ ∀ k < s.heap.buffers.issued,closes.count (some k) = 1

structure SafeRun (calls : List CacheCall) : Prop where
  served : ∀ before call after,calls = before++call :: after →
    let got := gpuCacheGet (cacheRun before).cache call.1 call.2
    got.2 ≠ 0 → got.1.heap.Live got.2 ∧ got.1.heap.bytes got.2 = call.1.payload
  sound : ∀ before after,calls = before++after → CacheSound (cacheRun before).cache

-- A tensor found with its metadata has the bytes it was last given a pointer for; one found
-- with other metadata is uploaded again with success.
structure Kept (r : CacheRun) (call : CacheCall) : Prop where
  unchanged : ∀ before e after,findEntry call.1.key r.cache.entries = some (before,e,after) → e.snapshot call.1 = true →
    r.sent call.1.key = call.1.payload
  renewed : ∀ before e after,findEntry call.1.key r.cache.entries = some (before,e,after) → e.snapshot call.1 = false →
    call.2.copied = true ∧ ∃ d ≠ 0,call.2.cudaMalloc (r.cache.heap.cudaFree e.dev) = some d

def KeptRun (calls : List CacheCall) : Prop := ∀ before call after,calls = before++call :: after → Kept (cacheRun before) call

theorem findEntry_some {key : Nat × Nat} {entries before after : List CacheEntry} {e : CacheEntry}
    (found : findEntry key entries = some (before,e,after)) : entries = before++e :: after ∧ e.key = key := by
  induction entries generalizing before with
  | nil => cases found
  | cons f rest ih =>
    unfold findEntry at found
    split at found
    · next own =>
      cases found
      exact ⟨rfl,own⟩
    · obtain ⟨⟨before',place⟩,deeper,same⟩ := Option.map_eq_some_iff.mp found
      cases same
      obtain ⟨split',own⟩ := ih deeper
      exact ⟨congrArg _ split',own⟩

theorem findEntry_none {key : Nat × Nat} {entries : List CacheEntry} (missing : findEntry key entries = none) :
    key ∉ entries.map CacheEntry.key := by
  induction entries with
  | nil => exact List.not_mem_nil
  | cons f rest ih =>
    unfold findEntry at missing
    split at missing
    · cases missing
    · next other =>
      rw [List.map_cons,List.mem_cons,not_or]
      exact ⟨fun same => other same.symm,ih (Option.map_eq_none_iff.mp missing)⟩

section Heap
variable {h : DeviceHeap} {places : List Nat} {d : Nat}

theorem cudaFree_buffers (some' : d ≠ 0) : (h.cudaFree d).buffers = h.buffers.close d := by
  rw [DeviceHeap.cudaFree,if_neg some']

theorem cudaFree_bytes : (h.cudaFree d).bytes = h.bytes := by
  unfold DeviceHeap.cudaFree
  split <;> rfl

theorem cudaFree_booked (booked : Booked h.buffers (d :: places)) (some' : d ≠ 0) : Booked (h.cudaFree d).buffers places := by
  rw [cudaFree_buffers some']
  exact booked.close

theorem upload_ne (ti : CacheTensor) (up : Upload) :
    (gpuCacheUpload h ti up).2 ≠ 0 ↔ up.copied = true ∧ ∃ d ≠ 0,up.cudaMalloc h = some d := by
  unfold gpuCacheUpload
  cases given : up.cudaMalloc h with
  | none => simp
  | some d => cases up.copied <;> simp

theorem upload_cases (booked : Booked h.buffers places) (some' : 0 ∉ places) (ti : CacheTensor) (up : Upload) :
    (gpuCacheUpload h ti up).2 = 0 ∧ Booked (gpuCacheUpload h ti up).1.buffers places ∧
        (∀ p ∈ places,(gpuCacheUpload h ti up).1.bytes p = h.bytes p) ∨
      (gpuCacheUpload h ti up).2 ≠ 0 ∧ Booked (gpuCacheUpload h ti up).1.buffers ((gpuCacheUpload h ti up).2 :: places) ∧
        (gpuCacheUpload h ti up).1.bytes = Function.update h.bytes (gpuCacheUpload h ti up).2 ti.payload := by
  unfold gpuCacheUpload
  cases given : up.cudaMalloc h with
  | none => exact Or.inl ⟨rfl,booked,fun _ _ => rfl⟩
  | some d =>
    have unheld := up.fresh h d given
    dsimp only
    by_cases null : d = 0
    · subst null
      refine Or.inl ?_
      cases up.copied with
      | true =>
        refine ⟨rfl,booked,fun p listed => ?_⟩
        have other : p ≠ 0 := by
          rintro rfl
          exact some' listed
        exact Function.update_of_ne other _ _
      | false => exact ⟨rfl,booked,fun _ _ => rfl⟩
    · rw [if_neg null]
      cases up.copied with
      | true => exact Or.inr ⟨null,booked.issue unheld,rfl⟩
      | false =>
        refine Or.inl ⟨rfl,cudaFree_booked (h:={h with buffers := h.buffers.issue d}) (booked.issue unheld) null,fun p _ => ?_⟩
        exact congrFun cudaFree_bytes p

end Heap

-- Every entry has its own identity and its own buffer, filled with what was last sent.
structure CacheRun.Inv (r : CacheRun) : Prop where
  booked : Booked r.cache.heap.buffers (r.cache.entries.map CacheEntry.dev)
  some' : 0 ∉ r.cache.entries.map CacheEntry.dev
  keys : (r.cache.entries.map CacheEntry.key).Nodup
  copies : ∀ e ∈ r.cache.entries,r.cache.heap.bytes e.dev = r.sent e.key

theorem live_iff {r : CacheRun} (inv : r.Inv) (d : Nat) :
    r.cache.heap.Live d ↔ d ∈ r.cache.entries.map CacheEntry.dev := by
  rw [inv.booked.held,DeviceHeap.Live,Option.ne_none_iff_exists']

theorem shutdown_booked {entries : List CacheEntry} {h : DeviceHeap} (booked : Booked h.buffers (entries.map CacheEntry.dev))
    (some' : 0 ∉ entries.map CacheEntry.dev) :
    Booked (entries.foldl (fun h e => h.cudaFree e.dev) h).buffers [] ∧
      (entries.foldl (fun h e => h.cudaFree e.dev) h).buffers.issued = h.buffers.issued := by
  induction entries generalizing h with
  | nil => exact ⟨booked,rfl⟩
  | cons e rest ih =>
    rw [List.map_cons,List.mem_cons,not_or] at some'
    obtain ⟨started,later⟩ := some'
    obtain ⟨done,count⟩ := ih (cudaFree_booked booked (Ne.symm started)) later
    refine ⟨done,count.trans ?_⟩
    rw [cudaFree_buffers (Ne.symm started)]
    rfl

theorem CacheRun.Inv.sound {r : CacheRun} (inv : r.Inv) : CacheSound r.cache := by
  refine ⟨fun e listed => (live_iff inv _).mpr (List.mem_map_of_mem listed),fun d live => ?_,?_⟩
  · exact List.count_eq_one_of_mem inv.booked.distinct ((live_iff inv d).mp live)
  · obtain ⟨done,count⟩ := shutdown_booked inv.booked inv.some'
    refine ⟨done.clean,fun k issued => ?_⟩
    rcases done.fate (count.symm ▸ issued) with ⟨_,listed,_⟩ | ⟨released,_⟩
    · exact absurd listed List.not_mem_nil
    · exact released

section Step
variable {r : CacheRun} {call : CacheCall}

def Served (r : CacheRun) (call : CacheCall) : Prop :=
  let got := gpuCacheGet r.cache call.1 call.2
  got.2 ≠ 0 → got.1.heap.Live got.2 ∧ got.1.heap.bytes got.2 = call.1.payload

theorem get_missing (inv : r.Inv) (missing : findEntry call.1.key r.cache.entries = none) : (r.get call).Inv ∧ Served r call := by
  have unlisted := findEntry_none missing
  unfold Served CacheRun.get gpuCacheGet
  rw [missing]
  dsimp only
  split
  · exact ⟨⟨inv.booked,inv.some',inv.keys,inv.copies⟩,fun some' => absurd rfl some'⟩
  rcases upload_cases inv.booked inv.some' call.1 call.2 with ⟨failed,booked,bytes⟩ | ⟨sent,booked,bytes⟩
  · rw [if_pos failed]
    refine ⟨⟨booked,inv.some',inv.keys,fun e listed => ?_⟩,fun some' => absurd rfl some'⟩
    exact (bytes _ (List.mem_map_of_mem listed)).trans (inv.copies e listed)
  · rw [if_neg sent]
    dsimp only
    rw [if_neg sent]
    set d := (gpuCacheUpload r.cache.heap call.1 call.2).2 with dev
    have outside := (List.nodup_cons.mp booked.distinct).1
    refine ⟨⟨?_,?_,?_,?_⟩,fun _ => ⟨?_,?_⟩⟩
    · rw [List.map_append]
      exact booked.perm (List.perm_append_singleton _ _).symm
    · rw [List.map_append,List.mem_append,not_or]
      exact ⟨inv.some',fun null => sent (List.mem_singleton.mp null).symm⟩
    · rw [List.map_append]
      exact List.nodup_append.mpr ⟨inv.keys,List.nodup_singleton _,fun k listed k' new same => by
        obtain rfl := List.mem_singleton.mp new
        have own : k = call.1.key := same
        exact unlisted (own ▸ listed)⟩
    · intro e listed
      rw [bytes]
      rcases List.mem_append.mp listed with old | new
      · have other : e.dev ≠ d := fun same => outside (same ▸ List.mem_map_of_mem old)
        have apart : e.key ≠ call.1.key := fun same => unlisted (same ▸ List.mem_map_of_mem old)
        exact (Function.update_of_ne other _ _).trans ((inv.copies e old).trans (Function.update_of_ne apart _ _).symm)
      · obtain rfl := List.mem_singleton.mp new
        exact (Function.update_self d _ _).trans (Function.update_self call.1.key call.1.payload r.sent).symm
    · exact Option.ne_none_iff_exists'.mpr ((booked.held d).mp List.mem_cons_self)
    · rw [bytes]
      exact Function.update_self _ _ _

theorem get_hit (inv : r.Inv) {before after : List CacheEntry} {e : CacheEntry}
    (found : findEntry call.1.key r.cache.entries = some (before,e,after)) (same : e.snapshot call.1 = true) :
    gpuCacheGet r.cache call.1 call.2 = (r.cache,e.dev) ∧ e.dev ≠ 0 ∧ r.cache.heap.bytes e.dev = r.sent call.1.key := by
  obtain ⟨place,own⟩ := findEntry_some found
  have listed : e ∈ r.cache.entries := by simp [place]
  refine ⟨?_,fun null => inv.some' (null ▸ List.mem_map_of_mem listed),own ▸ inv.copies e listed⟩
  unfold gpuCacheGet
  rw [found]
  exact if_pos same

variable {before after : List CacheEntry} {e : CacheEntry}

theorem places_split (place : r.cache.entries = before++e :: after) :
    (r.cache.entries.map CacheEntry.dev).Perm (e.dev :: (before++after).map CacheEntry.dev) := by
  rw [place,List.map_append,List.map_cons,List.map_append]
  exact List.perm_middle

theorem get_renewed (inv : r.Inv) (found : findEntry call.1.key r.cache.entries = some (before,e,after))
    (differs : e.snapshot call.1 = false) (sent : (gpuCacheUpload (r.cache.heap.cudaFree e.dev) call.1 call.2).2 ≠ 0) :
    (r.get call).Inv ∧ Served r call := by
  obtain ⟨place,own⟩ := findEntry_some found
  have split' := places_split place
  have listed : e ∈ r.cache.entries := by simp [place]
  have some' : e.dev ≠ 0 := fun null => inv.some' (null ▸ List.mem_map_of_mem listed)
  have freed := cudaFree_booked (inv.booked.perm split') some'
  have others : 0 ∉ (before++after).map CacheEntry.dev := fun null => inv.some' (split'.mem_iff.mpr (List.mem_cons_of_mem _ null))
  have keys : (e.key :: (before++after).map CacheEntry.key).Nodup := by
    refine List.Perm.nodup ?_ inv.keys
    rw [place,List.map_append,List.map_cons,List.map_append]
    exact List.perm_middle
  unfold Served CacheRun.get gpuCacheGet
  rw [found]
  dsimp only
  rw [if_neg (by simp [differs]),if_neg sent]
  dsimp only
  rw [if_neg sent]
  rcases upload_cases freed others call.1 call.2 with ⟨failed,_⟩ | ⟨_,booked,bytes⟩
  · exact absurd failed sent
  set d := (gpuCacheUpload (r.cache.heap.cudaFree e.dev) call.1 call.2).2 with dev
  have outside := (List.nodup_cons.mp booked.distinct).1
  refine ⟨⟨?_,?_,?_,?_⟩,fun _ => ⟨?_,?_⟩⟩
  · refine booked.perm ?_
    rw [List.map_append,List.map_append,List.map_cons]
    exact List.perm_middle.symm
  · rw [List.map_append,List.map_cons,List.mem_append,List.mem_cons]
    rw [List.map_append,List.mem_append] at others
    rintro (old | new | old)
    · exact others (Or.inl old)
    · exact sent new.symm
    · exact others (Or.inr old)
  · rw [List.map_append,List.map_cons]
    rw [List.map_append] at keys
    exact List.Perm.nodup List.perm_middle.symm keys
  · intro f member
    rw [bytes,cudaFree_bytes]
    have cases' : f = {cacheEntry call.1 d with base := e.base, ti := e.ti} ∨ f ∈ before++after := by
      simp only [List.mem_append,List.mem_cons] at member ⊢
      tauto
    rcases cases' with new | old
    · subst new
      have same : e.key = call.1.key := own
      exact (Function.update_self d _ _).trans (by
        change call.1.payload = Function.update r.sent call.1.key call.1.payload e.key
        rw [same,Function.update_self])
    · have other : f.dev ≠ d := fun same => outside (same ▸ List.mem_map_of_mem old)
      have apart : f.key ≠ call.1.key := by
        intro same
        rw [← own] at same
        exact (List.nodup_cons.mp keys).1 (same ▸ List.mem_map_of_mem old)
      have kept : f ∈ r.cache.entries := by
        rw [place]
        simp only [List.mem_append,List.mem_cons] at old ⊢
        tauto
      exact (Function.update_of_ne other _ _).trans ((inv.copies f kept).trans (Function.update_of_ne apart _ _).symm)
  · exact Option.ne_none_iff_exists'.mpr ((booked.held d).mp List.mem_cons_self)
  · rw [bytes]
    exact Function.update_self _ _ _

-- Where the second upload fails, the entry keeps the buffer that was freed.
theorem get_dead (inv : r.Inv) (found : findEntry call.1.key r.cache.entries = some (before,e,after))
    (differs : e.snapshot call.1 = false) (failed : (gpuCacheUpload (r.cache.heap.cudaFree e.dev) call.1 call.2).2 = 0) :
    ¬ CacheSound (r.get call).cache := by
  obtain ⟨place,own⟩ := findEntry_some found
  have split' := places_split place
  have listed : e ∈ r.cache.entries := by simp [place]
  have some' : e.dev ≠ 0 := fun null => inv.some' (null ▸ List.mem_map_of_mem listed)
  have freed := cudaFree_booked (inv.booked.perm split') some'
  have others : 0 ∉ (before++after).map CacheEntry.dev := fun null => inv.some' (split'.mem_iff.mpr (List.mem_cons_of_mem _ null))
  have outside := (List.nodup_cons.mp (split'.nodup inv.booked.distinct)).1
  have after' : (r.get call).cache = {r.cache with heap := (gpuCacheUpload (r.cache.heap.cudaFree e.dev) call.1 call.2).1} := by
    unfold CacheRun.get gpuCacheGet
    rw [found]
    dsimp only
    rw [if_neg (by simp [differs]),if_pos failed]
  intro sound
  have alive := sound.alive e (by rwa [after'])
  rw [after'] at alive
  rcases upload_cases freed others call.1 call.2 with ⟨_,booked,_⟩ | ⟨sent,_⟩
  · exact outside ((booked.held _).mpr (Option.ne_none_iff_exists'.mp alive))
  · exact sent failed

theorem get_kept (inv : r.Inv) (kept : Kept r call) : (r.get call).Inv ∧ Served r call := by
  cases found : findEntry call.1.key r.cache.entries with
  | none => exact get_missing inv found
  | some place =>
    obtain ⟨before,e,after⟩ := place
    cases metadata : e.snapshot call.1 with
    | true =>
      obtain ⟨got,some',bytes⟩ := get_hit inv found metadata
      have same := kept.unchanged before e after found metadata
      obtain ⟨place,_⟩ := findEntry_some found
      have listed : e ∈ r.cache.entries := by simp [place]
      unfold Served CacheRun.get
      rw [got]
      dsimp only
      rw [if_neg some',← same,Function.update_eq_self]
      exact ⟨inv,fun _ => ⟨(live_iff inv _).mpr (List.mem_map_of_mem listed),bytes⟩⟩
    | false => exact get_renewed inv found metadata ((upload_ne _ _).mpr (kept.renewed before e after found metadata))

theorem kept_of_safe (inv : r.Inv) (served : Served r call) (sound : CacheSound (r.get call).cache) : Kept r call := by
  constructor
  · intro before e after found metadata
    obtain ⟨got,some',bytes⟩ := get_hit inv found metadata
    unfold Served at served
    rw [got] at served
    exact bytes.symm.trans (served some').2
  · intro before e after found metadata
    by_contra failed
    rw [← upload_ne call.1,not_not] at failed
    exact get_dead inv found metadata failed sound

end Step

theorem cacheRun_append (before : List CacheCall) (call : CacheCall) : cacheRun (before++[call]) = (cacheRun before).get call := by
  rw [cacheRun,List.foldl_append]
  rfl

theorem cacheRun_inv (calls : List CacheCall) (kept : KeptRun calls) : (cacheRun calls).Inv := by
  induction calls using List.reverseRecOn with
  | nil =>
    refine ⟨⟨List.nodup_nil,?_,?_,?_,?_,?_,List.not_mem_nil⟩,List.not_mem_nil,List.nodup_nil,fun _ none' => absurd none' List.not_mem_nil⟩
    · simp [cacheRun,emptyCache]
    · simp [cacheRun,emptyCache]
    · simp [cacheRun,emptyCache]
    · simp [cacheRun,emptyCache]
    · simp [cacheRun,emptyCache]
  | append_singleton before call ih =>
    rw [cacheRun_append]
    refine (get_kept (ih fun b c a same => kept b c (a++[call]) (by simp [same])) (kept before call [] rfl)).1

-- The cache serves live and exact copies and leaves nothing to be freed twice exactly
-- where every replacement goes through and no bytes change under their metadata.
theorem gpuCache_safe_iff (calls : List CacheCall) : SafeRun calls ↔ KeptRun calls := by
  constructor
  · intro safe
    induction calls using List.reverseRecOn with
    | nil => exact fun before call after split' => by simp at split'
    | append_singleton calls call ih =>
      have earlier : KeptRun calls := by
        refine ih ⟨fun b c a same => safe.served b c (a++[call]) (by simp [same]),fun b a same => safe.sound b (a++[call]) (by simp [same])⟩
      have last : Kept (cacheRun calls) call := by
        refine kept_of_safe (cacheRun_inv calls earlier) (safe.served calls call [] rfl) ?_
        rw [← cacheRun_append]
        exact safe.sound (calls++[call]) [] (List.append_nil _).symm
      intro before c after split'
      rcases List.eq_nil_or_concat after with rfl | ⟨rest,final,rfl⟩
      · obtain ⟨rfl,single⟩ := List.append_inj' split' rfl
        cases single
        exact last
      · refine earlier before c rest ?_
        rw [List.concat_eq_append,← List.cons_append,← List.append_assoc] at split'
        exact (List.append_inj' split' rfl).1
  · intro kept
    constructor
    · intro before call after split'
      subst split'
      have inv := cacheRun_inv before fun b c a same => kept b c (a++call :: after) (by simp [same])
      exact (get_kept inv (kept before call after rfl)).2
    · intro before after split'
      subst split'
      exact (cacheRun_inv before fun b c a same => kept b c (a++after) (by simp [same])).sound

-- The driver with one address, free or not.
def onlyAddress : Upload := ⟨fun h => if h.buffers.holder 1 = none then some 1 else none,true,by
  intro h d given
  split at given
  · next unheld =>
    cases given
    exact unheld
  · cases given⟩

def outOfMemory : Upload := ⟨fun _ => none,true,fun _ _ given => nomatch given⟩

-- A tensor replaced by a larger one for which there is no memory: the first, asked for
-- again, gets the buffer that was freed.
theorem deadBuffer_served : ¬ ∀ calls : List CacheCall,SafeRun calls := by
  intro all
  have served := (all [(⟨16,1,1,24,0,[7]⟩,onlyAddress),(⟨16,1,2,24,0,[7,8]⟩,outOfMemory),(⟨16,1,1,24,0,[7]⟩,onlyAddress)]).served
    [(⟨16,1,1,24,0,[7]⟩,onlyAddress),(⟨16,1,2,24,0,[7,8]⟩,outOfMemory)] (⟨16,1,1,24,0,[7]⟩,onlyAddress) [] rfl
  exact (served (by decide)).1 (by decide)

end TinyLlama.Gpu
