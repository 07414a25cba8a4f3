import Mathlib.Tactic

-- Backtracking patterns: every way a pattern matches at the head, in order, as what it leaves of the text.
namespace TinyLlama.Regex
variable {α : Type}

inductive Pattern (α : Type) where
  | one (p : α → Bool)
  | plus (p : α → Bool)
  | seq (a b : Pattern α)
  | alt (a b : Pattern α)
  | opt (a : Pattern α)
  | notAhead (a : Pattern α)

def plusWays (p : α → Bool) : List α → List (List α)
  | [] => []
  | c :: rest => if p c then plusWays p rest++[rest] else []

def Pattern.ways : Pattern α → List α → List (List α)
  | .one _,[] => []
  | .one p,c :: rest => if p c then [rest] else []
  | .plus p,text => plusWays p text
  | .seq a b,text => (a.ways text).flatMap b.ways
  | .alt a b,text => a.ways text++b.ways text
  | .opt a,text => a.ways text++[text]
  | .notAhead a,text => if (a.ways text).isEmpty then [text] else []

-- Leftmost matches, each from where the one before it ends.
def matchesFrom (r : Pattern α) : Nat → List α → List (List α)
  | 0,_ => []
  | _,[] => []
  | fuel+1,c :: text =>
    match (r.ways (c :: text)).head? with
    | some rest =>
      if rest.length ≤ text.length then (c :: text).take (text.length+1-rest.length) :: matchesFrom r fuel rest
      else matchesFrom r fuel text
    | none => matchesFrom r fuel text

def matchesOf (r : Pattern α) (text : List α) : List (List α) := matchesFrom r text.length text

section Ways
variable (a b : Pattern α) (text : List α)

theorem seq_ways : (Pattern.seq a b).ways text = (a.ways text).flatMap b.ways := rfl

theorem alt_ways : (Pattern.alt a b).ways text = a.ways text++b.ways text := rfl

theorem opt_ways : (Pattern.opt a).ways text = a.ways text++[text] := rfl

theorem plus_ways (p : α → Bool) : (Pattern.plus p).ways text = plusWays p text := rfl

end Ways

theorem plusWays_cons (p : α → Bool) (c : α) (rest : List α) :
    plusWays p (c :: rest) = if p c then plusWays p rest++[rest] else [] := rfl

theorem plusWays_head (p : α → Bool) (c : α) (text : List α) :
    (plusWays p (c :: text)).head? = if p c then some (text.dropWhile p) else none := by
  induction text generalizing c with
  | nil => by_cases here : p c <;> simp [here,plusWays]
  | cons d text ih =>
    by_cases here : p c
    · rw [plusWays_cons,if_pos here,if_pos here,List.head?_append,ih d]
      by_cases next : p d
      · simp [next]
      · simp [next]
    · simp [plusWays_cons,here]

theorem plusWays_none (p : α → Bool) {text : List α} (unmatched : ∀ c ∈ text.head?,p c = false) : plusWays p text = [] := by
  cases text with
  | nil => rfl
  | cons c text => simp [plusWays_cons,unmatched c rfl]

theorem seq_notAhead_head (a : Pattern α) (p : α → Bool) (text : List α) :
    ((Pattern.seq a (.notAhead (.one fun c => !p c))).ways text).head? = (a.ways text).find? fun rest => rest.head?.all p := by
  rw [Pattern.ways,List.head?_flatMap]
  induction a.ways text with
  | nil => rfl
  | cons rest others ih =>
    rw [List.findSome?_cons,List.find?_cons,ih]
    cases rest with
    | nil => simp [Pattern.ways]
    | cons c rest => by_cases here : p c <;> simp [Pattern.ways,here]

-- A run of a class that may not be followed by another character: the whole run at the
-- end of the text, and elsewhere all of it but its last member.
theorem plusWays_within (p : α → Bool) (run : List α) (all : ∀ c ∈ run,p c = true) (some' : run ≠ []) :
    (plusWays p run).find? (fun rest => rest.head?.all p) = some [] := by
  induction run with
  | nil => exact absurd rfl some'
  | cons c run ih =>
    rw [plusWays_cons,if_pos (all c List.mem_cons_self),List.find?_append]
    by_cases last : run = []
    · subst last
      rfl
    · rw [ih (fun d member => all d (List.mem_cons_of_mem c member)) last]
      rfl

theorem plusWays_before (p : α → Bool) (run : List α) (all : ∀ c ∈ run,p c = true) (d : α) (rest : List α) (stop : p d = false) :
    (plusWays p (run++d :: rest)).find? (fun rest => rest.head?.all p) =
      if run.length ≤ 1 then none else some (run.drop (run.length-1)++d :: rest) := by
  induction run with
  | nil => simp [plusWays_cons,stop]
  | cons c run ih =>
    have tail := ih fun d member => all d (List.mem_cons_of_mem c member)
    rw [List.cons_append,plusWays_cons,if_pos (all c List.mem_cons_self),List.find?_append,tail]
    cases run with
    | nil => simp [stop]
    | cons e run =>
      have next : p e = true := all e (by simp)
      cases run with
      | nil => simp [next]
      | cons f run => simp

end TinyLlama.Regex
