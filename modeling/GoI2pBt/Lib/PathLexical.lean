/-
  Clean paths, and joins that stay inside a directory.
-/
import GoI2pBt.Lib.Filepath

namespace GoI2pBt

open List

variable {elems : List Bytes} {r : Bool} {root : Bytes} {last : Bytes}

def dotdot : Bytes := utf8 ".."

def rooted (path : Bytes) : Bool := path.head? = some (ch '/')

def pathElems (path : Bytes) : List Bytes := path.splitOn (ch '/')

def cleanRun (r : Bool) (out elems : List Bytes) : List Bytes := elems.foldl (cleanStep r) out

def lexical (path : Bytes) : Bool × List Bytes :=
  (rooted path, (cleanRun (rooted path) [] (pathElems path)).reverse)

def Inside (root path : Bytes) : Prop :=
  (lexical path).1 = (lexical root).1 ∧ (lexical root).2 <+: (lexical path).2 ∧
    dotdot ∉ (lexical path).2.drop (lexical root).2.length

instance (root path : Bytes) : Decidable (Inside root path) := instDecidableAnd

/-! ## Runs of elements -/

structure IsName (elem : Bytes) : Prop where
  ne_nil : elem ≠ []
  ne_dot : elem ≠ utf8 "."
  ne_dotdot : elem ≠ dotdot

section Runs

variable {r : Bool} {out elems : List Bytes} {elem : Bytes}

theorem dotdot_ne : dotdot ≠ [] ∧ dotdot ≠ utf8 "." := by decide

theorem cleanStep_skip (h : elem = [] ∨ elem = utf8 ".") : cleanStep r out elem = out := if_pos h

theorem IsName.step (h : IsName elem) : cleanStep r out elem = elem :: out := by
  have hup : ¬ elem = utf8 ".." := h.ne_dotdot
  unfold cleanStep
  rw [if_neg (by simp [h.ne_nil, h.ne_dot]), if_neg hup]

theorem dotdot_eq : dotdot = utf8 ".." := rfl

theorem cleanStep_dotdot_nil : cleanStep r [] dotdot = if r then [] else [dotdot] := by
  unfold cleanStep
  rw [if_neg (by simp [dotdot_ne]), if_pos dotdot_eq]

theorem cleanStep_dotdot_cons : cleanStep r (elem :: out) dotdot =
    if elem = dotdot then dotdot :: elem :: out else out := by
  unfold cleanStep
  rw [if_neg (by simp [dotdot_ne]), if_pos dotdot_eq]
  rfl

theorem cleanStep_dotdot_name (r : Bool) (h : elem ≠ dotdot) :
    cleanStep r (elem :: out) dotdot = out := by
  rw [cleanStep_dotdot_cons, if_neg h]

theorem elem_cases (elem : Bytes) :
    (elem = [] ∨ elem = utf8 ".") ∨ elem = dotdot ∨ IsName elem := by
  by_cases hskip : elem = [] ∨ elem = utf8 "."
  · exact .inl hskip
  by_cases hup : elem = dotdot
  · exact .inr (.inl hup)
  push Not at hskip
  exact .inr (.inr ⟨hskip.1, hskip.2, hup⟩)

theorem cleanRun_append {more} :
    cleanRun r out (elems ++ more) = cleanRun r (cleanRun r out elems) more :=
  foldl_append ..

theorem cleanRun_names (h : ∀ elem ∈ elems, IsName elem) :
    cleanRun r out elems = elems.reverse ++ out := by
  induction elems generalizing out with
  | nil => rfl
  | cons elem elems ih =>
    rw [forall_mem_cons] at h
    rw [cleanRun, foldl_cons, ← cleanRun, h.1.step, ih h.2, reverse_cons,
      append_assoc, singleton_append]

def ups (elems : List Bytes) : ℕ := (cleanRun false [] elems).count dotdot

def downs (elems : List Bytes) : List Bytes :=
  ((cleanRun false [] elems).filter (· ≠ dotdot)).reverse

theorem exists_normal (elems : List Bytes) : ∃ (names : List Bytes) (k : ℕ),
    (∀ name ∈ names, IsName name ∧ name ∈ elems) ∧
    ∀ r out, cleanRun r out elems = names ++ cleanRun r out (replicate k dotdot) := by
  induction elems using reverseRecOn with
  | nil => exact ⟨[], 0, by simp, fun _ _ => rfl⟩
  | append_singleton elems elem ih =>
    obtain ⟨names, k, hnames, hrun⟩ := ih
    have hmore : ∀ name ∈ names, IsName name ∧ name ∈ elems ++ [elem] := fun name hname =>
      ⟨(hnames name hname).1, mem_append_left _ (hnames name hname).2⟩
    rcases elem_cases elem with hskip | rfl | hname
    · refine ⟨names, k, hmore, fun r out => ?_⟩
      rw [cleanRun_append, hrun]
      exact cleanStep_skip hskip
    · cases names with
      | nil =>
        refine ⟨[], k + 1, by simp, fun r out => ?_⟩
        rw [cleanRun_append, hrun, replicate_succ', cleanRun_append]
        rfl
      | cons name names =>
        rw [forall_mem_cons] at hmore
        refine ⟨names, k, hmore.2, fun r out => ?_⟩
        rw [cleanRun_append, hrun]
        exact cleanStep_dotdot_name r hmore.1.1.ne_dotdot
    · refine ⟨elem :: names, k, forall_mem_cons.2 ⟨⟨hname, by simp⟩, hmore⟩, fun r out => ?_⟩
      rw [cleanRun_append, hrun]
      exact hname.step

theorem cleanRun_dotdots (j k : ℕ) : cleanRun false (replicate j dotdot) (replicate k dotdot) =
      replicate (j + k) dotdot := by
  induction k generalizing j with
  | zero => rfl
  | succ k ih =>
    have hstep : cleanStep false (replicate j dotdot) dotdot = replicate (j + 1) dotdot := by
      cases j with
      | zero => exact cleanStep_dotdot_nil
      | succ j => rw [replicate_succ, cleanStep_dotdot_cons, if_pos rfl]; rfl
    rw [replicate_succ, cleanRun, foldl_cons, hstep, ← cleanRun, ih]
    congr 1
    omega

theorem cleanRun_dotdots_nil (k : ℕ) :
    cleanRun false [] (replicate k dotdot) = replicate k dotdot := by
  simpa using cleanRun_dotdots 0 k

theorem cleanRun_normal (elems : List Bytes) :
    (∀ name ∈ downs elems, IsName name ∧ name ∈ elems) ∧ ∀ r out, cleanRun r out elems =
      (downs elems).reverse ++ cleanRun r out (replicate (ups elems) dotdot) := by
  obtain ⟨names, k, hnames, hrun⟩ := exists_normal elems
  have hempty : cleanRun false [] elems = names ++ replicate k dotdot := by
    rw [hrun, cleanRun_dotdots_nil]
  have hno : ∀ name ∈ names, name ≠ dotdot := fun name h => (hnames name h).1.ne_dotdot
  have hups : ups elems = k := by
    rw [ups, hempty, count_append, count_replicate_self,
      count_eq_zero_of_not_mem fun h => hno _ h rfl, zero_add]
  have hdowns : downs elems = names.reverse := by
    have hkeep : names.filter (· ≠ dotdot) = names :=
      filter_eq_self.2 fun name h => by simpa using hno name h
    have hdrop : (replicate k dotdot).filter (· ≠ dotdot) = [] :=
      filter_eq_nil_iff.2 fun name h => by simp [eq_of_mem_replicate h]
    rw [downs, hempty, filter_append, hkeep, hdrop, append_nil]
  rw [hups, hdowns]
  exact ⟨fun name h => hnames name (mem_reverse.1 h), fun r out => by rw [reverse_reverse, hrun]⟩

theorem dotdot_notMem_downs (elems : List Bytes) : dotdot ∉ downs elems :=
  fun h => ((cleanRun_normal elems).1 _ h).1.ne_dotdot rfl

end Runs

/-! ## Paths that are clean -/

structure Reduced (r : Bool) (elems : List Bytes) : Prop where
  normal : ∃ j names, elems = replicate j dotdot ++ names ∧ (r = true → j = 0) ∧
    ∀ name ∈ names, IsName name
  no_slash : ∀ elem ∈ elems, ch '/' ∉ elem

theorem cleanRun_dotdots_rooted (k : ℕ) : cleanRun true [] (replicate k dotdot) = [] := by
  induction k with
  | zero => rfl
  | succ k ih => rw [replicate_succ, cleanRun, foldl_cons, cleanStep_dotdot_nil]; exact ih

theorem notMem_pathElems {path} : ∀ elem ∈ pathElems path, ch '/' ∉ elem := by
  induction path with
  | nil =>
    intro elem h
    rw [pathElems, splitOn_nil, mem_singleton] at h
    rw [h]
    exact not_mem_nil
  | cons c path ih =>
    intro elem h
    rw [pathElems, splitOn_cons_eq_if_modifyHead] at h
    obtain ⟨first, rest, hsplit⟩ := exists_cons_of_ne_nil (splitOn_ne_nil (ch '/') path)
    rw [pathElems, hsplit, forall_mem_cons] at ih
    rw [hsplit] at h
    split_ifs at h with hc
    · rcases mem_cons.1 h with rfl | h
      · exact not_mem_nil
      · rcases mem_cons.1 h with rfl | h
        · exact ih.1
        · exact ih.2 elem h
    · rw [modifyHead_cons, mem_cons] at h
      rcases h with rfl | h
      · rw [mem_cons, not_or]
        exact ⟨fun heq => hc (by simp [heq]), ih.1⟩
      · exact ih.2 elem h

theorem reduced_lexical (path : Bytes) : Reduced (lexical path).1 (lexical path).2 := by
  obtain ⟨hnames, hrun⟩ := cleanRun_normal (pathElems path)
  have hslash : ∀ name ∈ downs (pathElems path), ch '/' ∉ name :=
    fun name h => notMem_pathElems name (hnames name h).2
  rw [lexical, hrun]
  dsimp only
  cases rooted path with
  | true =>
    rw [cleanRun_dotdots_rooted, append_nil, reverse_reverse]
    exact ⟨⟨0, _, rfl, fun _ => rfl, fun name h => (hnames name h).1⟩, hslash⟩
  | false =>
    rw [cleanRun_dotdots_nil, reverse_append, reverse_reverse, reverse_replicate]
    refine ⟨⟨_, _, rfl, nofun, fun name h => (hnames name h).1⟩, fun elem h => ?_⟩
    rcases mem_append.1 h with h | h
    · rw [eq_of_mem_replicate h]
      decide
    · exact hslash elem h

theorem Reduced.cleanRun_eq (h : Reduced r elems) : cleanRun r [] elems = elems.reverse := by
  obtain ⟨j, names, rfl, hj, hnames⟩ := h.normal
  rw [cleanRun_append, cleanRun_names hnames, reverse_append, reverse_replicate]
  cases r with
  | true => rw [hj rfl]; rfl
  | false => rw [cleanRun_dotdots_nil]

def joinElems (elems : List Bytes) : Bytes := [ch '/'].intercalate elems

theorem cleanPath_eq (path : Bytes) : cleanPath path =
    if (lexical path).1 then ch '/' :: joinElems (lexical path).2
    else if (lexical path).2 = [] then utf8 "." else joinElems (lexical path).2 := by
  by_cases h : path.head? = some (ch '/')
  · simp [cleanPath, lexical, rooted, h, joinElems, intercalate, cleanRun, pathElems]
  · simp [cleanPath, lexical, rooted, h, joinElems, intercalate, cleanRun, pathElems]

@[simp] theorem joinElems_singleton (elem : Bytes) : joinElems [elem] = elem := by simp [joinElems]

theorem joinElems_cons {elem} (h : elems ≠ []) :
    joinElems (elem :: elems) = elem ++ ch '/' :: joinElems elems := by
  obtain ⟨first, rest, rfl⟩ := exists_cons_of_ne_nil h
  rw [joinElems, intercalate_cons_cons, append_assoc, singleton_append]
  rfl

theorem pathElems_append (a b : Bytes) :
    pathElems (a ++ ch '/' :: b) = pathElems a ++ pathElems b :=
  splitOn_append_cons_self a b

theorem pathElems_slash (b : Bytes) : pathElems (ch '/' :: b) = [] :: pathElems b :=
  pathElems_append [] b

theorem pathElems_joinElems (hslash : ∀ elem ∈ elems, ch '/' ∉ elem)
    (hne : elems ≠ []) : pathElems (joinElems elems) = elems :=
  splitOn_intercalate _ hslash hne

theorem cleanRun_skip {out elems} : cleanRun r out ([] :: elems) = cleanRun r out elems := by
  rw [cleanRun, foldl_cons, cleanStep_skip (.inl rfl), ← cleanRun]

theorem Reduced.lexical_slash (h : Reduced true elems) :
    lexical (ch '/' :: joinElems elems) = (true, elems) := by
  have hrooted : rooted (ch '/' :: joinElems elems) = true := by simp [rooted]
  rw [lexical, hrooted, pathElems_slash, cleanRun_skip]
  rcases eq_or_ne elems [] with rfl | hne
  · rfl
  · rw [pathElems_joinElems h.no_slash hne, h.cleanRun_eq, reverse_reverse]

theorem Reduced.ne_nil (h : Reduced r elems) : ∀ elem ∈ elems, elem ≠ [] := by
  obtain ⟨j, names, rfl, -, hnames⟩ := h.normal
  intro elem helem
  rcases mem_append.1 helem with helem | helem
  · rw [eq_of_mem_replicate helem]
    exact dotdot_ne.1
  · exact (hnames elem helem).ne_nil

theorem Reduced.joinElems_ne_nil (h : Reduced r elems)
    (hne : elems ≠ []) : joinElems elems ≠ [] := by
  obtain ⟨first, rest, rfl⟩ := exists_cons_of_ne_nil hne
  have hfirst := h.ne_nil first mem_cons_self
  rcases eq_or_ne rest [] with rfl | hrest
  · simpa using hfirst
  · rw [joinElems_cons hrest]
    exact append_ne_nil_of_left_ne_nil hfirst _

theorem cleanPath_ne_nil (path : Bytes) : cleanPath path ≠ [] := by
  have hred := reduced_lexical path
  rw [cleanPath_eq]
  split_ifs with hr hnil
  · exact cons_ne_nil _ _
  · decide
  · exact hred.joinElems_ne_nil hnil

theorem rooted_append {a b : Bytes} (h : a ≠ []) : rooted (a ++ b) = rooted a := by
  rw [rooted, rooted, head?_append_of_ne_nil _ h]

theorem rooted_joinElems {first : Bytes} (h : first ≠ []) (rest : List Bytes) :
    rooted (joinElems (first :: rest)) = rooted first := by
  rcases eq_or_ne rest [] with rfl | hne
  · rw [joinElems_singleton]
  · rw [joinElems_cons hne, rooted_append h]

theorem rooted_of_notMem {a} (h : ch '/' ∉ a) : rooted a = false := by
  cases a with
  | nil => rfl
  | cons c a =>
    simp only [rooted, head?_cons, Option.some.injEq, decide_eq_false_iff_not]
    exact fun heq => h (heq ▸ mem_cons_self)

theorem Reduced.lexical_joinElems (h : Reduced false elems) (hne : elems ≠ []) :
    lexical (joinElems elems) = (false, elems) := by
  have hrooted : rooted (joinElems elems) = false := by
    obtain ⟨first, rest, rfl⟩ := exists_cons_of_ne_nil hne
    rw [rooted_joinElems (h.ne_nil first mem_cons_self),
      rooted_of_notMem (h.no_slash first mem_cons_self)]
  rw [lexical, hrooted, pathElems_joinElems h.no_slash hne, h.cleanRun_eq, reverse_reverse]

@[simp] theorem lexical_cleanPath (path : Bytes) : lexical (cleanPath path) = lexical path := by
  have hred := reduced_lexical path
  rw [cleanPath_eq]
  generalize lexical path = meaning at hred ⊢
  obtain ⟨r, elems⟩ := meaning
  dsimp only at hred ⊢
  cases r with
  | true => exact hred.lexical_slash
  | false =>
    rw [if_neg Bool.false_ne_true]
    split_ifs with hnil
    · rw [hnil]
      decide
    · exact hred.lexical_joinElems hnil

/-! ## Joining -/

theorem joinPath_eq (h : root ≠ []) (parts : List Bytes) :
    joinPath (root :: parts) = cleanPath (joinElems (root :: parts)) := by
  unfold joinPath
  rw [dropWhile_cons_of_neg (by simpa using h), if_neg (cons_ne_nil _ _)]
  rfl

theorem joinPath_nil_cons (parts : List Bytes) : joinPath ([] :: parts) = joinPath parts := by
  unfold joinPath
  rw [dropWhile_cons_of_pos (by simp)]

theorem pathElems_joinElems_parts {parts} (h : parts ≠ []) :
    pathElems (joinElems parts) = parts.flatMap pathElems := by
  induction parts with
  | nil => exact absurd rfl h
  | cons part parts ih =>
    rcases eq_or_ne parts [] with rfl | hne
    · simp [joinElems]
    · rw [joinElems_cons hne, pathElems_append, ih hne, flatMap_cons]

theorem lexical_joinPath (h : root ≠ []) (parts : List Bytes) :
    lexical (joinPath (root :: parts)) = ((lexical root).1,
      (cleanRun (lexical root).1 (lexical root).2.reverse (parts.flatMap pathElems)).reverse) := by
  rw [joinPath_eq h, lexical_cleanPath, lexical, rooted_joinElems h,
    pathElems_joinElems_parts (cons_ne_nil _ _), flatMap_cons, cleanRun_append, lexical,
    reverse_reverse]

/-! ## Inside a directory -/

theorem cleanRun_climb {names out k}
    (hnames : ∀ name ∈ names, name ≠ dotdot) (hk : k ≤ names.length) :
    cleanRun r (names ++ out) (replicate k dotdot) = names.drop k ++ out := by
  induction k generalizing names with
  | zero => rfl
  | succ k ih =>
    cases names with
    | nil => simp at hk
    | cons name names =>
      rw [forall_mem_cons] at hnames
      rw [replicate_succ, cleanRun, foldl_cons, cons_append,
        cleanStep_dotdot_name r hnames.1, ← cleanRun, drop_succ_cons]
      exact ih hnames.2 (by simpa using hk)

theorem Reduced.climb (h : Reduced r elems) (k : ℕ) : ((r = true ∨ k ≤ elems.length) ∧
      (cleanRun r elems.reverse (replicate k dotdot)).reverse = elems.take (elems.length - k)) ∨
    r = false ∧ ∃ j n names, elems = replicate j dotdot ++ names ∧
      (∀ name ∈ names, IsName name) ∧ k = names.length + (n + 1) ∧
      (cleanRun r elems.reverse (replicate k dotdot)).reverse = replicate (j + (n + 1)) dotdot := by
  obtain ⟨j, names, rfl, hj, hnames⟩ := h.normal
  have hrev : ∀ name ∈ names.reverse, name ≠ dotdot := fun name hname =>
    (hnames name (mem_reverse.1 hname)).ne_dotdot
  rw [reverse_append, reverse_replicate]
  rcases lt_or_ge names.length k with hlt | hle
  · obtain ⟨n, rfl⟩ : ∃ n, k = names.length + (n + 1) := ⟨k - names.length - 1, by omega⟩
    have hsplit : replicate (names.length + (n + 1)) dotdot =
        replicate names.length dotdot ++ replicate (n + 1) dotdot :=
      replicate_append_replicate.symm
    have htop : cleanRun r (names.reverse ++ replicate j dotdot)
        (replicate names.length dotdot) = replicate j dotdot := by
      rw [cleanRun_climb hrev (by simp), drop_of_length_le (by simp), nil_append]
    rw [hsplit, cleanRun_append, htop]
    cases r with
    | true =>
      refine .inl ⟨.inl rfl, ?_⟩
      rw [hj rfl, replicate_zero, cleanRun_dotdots_rooted, reverse_nil, nil_append,
        Nat.sub_eq_zero_of_le (by omega), take_zero]
    | false =>
      refine .inr ⟨rfl, j, n, names, rfl, hnames, rfl, ?_⟩
      rw [cleanRun_dotdots, reverse_replicate]
  · refine .inl ⟨.inr (by rw [length_append]; omega), ?_⟩
    have htake : (names.reverse.drop k).reverse = names.take (names.length - k) := by
      rw [reverse_drop, reverse_reverse, length_reverse]
    have hdots : (replicate j dotdot).take (j + names.length - k) = replicate j dotdot :=
      take_of_length_le (by rw [length_replicate]; omega)
    rw [cleanRun_climb hrev (by rwa [length_reverse]), reverse_append,
      reverse_replicate, htake, take_append, length_append, length_replicate,
      hdots]
    congr 2
    omega

theorem Reduced.climb_back {elems down k} (h : Reduced r elems) (hno : dotdot ∉ down)
    (hroom : r = true ∨ k ≤ elems.length) (hback : elems.drop (elems.length - k) <+: down) :
    (cleanRun r elems.reverse (replicate k dotdot)).reverse = elems.take (elems.length - k) := by
  rcases h.climb k with ⟨-, hclimb⟩ | ⟨rfl, j, n, names, rfl, -, hk, -⟩
  · exact hclimb
  · refine absurd (hback.subset ?_) hno
    have hle := hroom.resolve_left Bool.false_ne_true
    rw [length_append, length_replicate] at hle ⊢
    have hdrop : j + names.length - k = j - (n + 1) := by omega
    rw [hdrop, drop_append_of_le_length (by rw [length_replicate]; omega), drop_replicate]
    exact mem_append_left _ (mem_replicate.2 ⟨by omega, rfl⟩)

theorem append_eq_take_append_iff {elems rest down : List Bytes} {n : ℕ} :
    elems ++ rest = elems.take n ++ down ↔ down = elems.drop n ++ rest := by
  have hrest : elems ++ rest = elems.take n ++ (elems.drop n ++ rest) := by
    rw [← append_assoc, take_append_drop]
  rw [hrest, append_right_inj, eq_comm]

theorem inside_run_iff (h : Reduced r elems) (parts : List Bytes) :
    (elems <+: (cleanRun r elems.reverse parts).reverse ∧
      dotdot ∉ ((cleanRun r elems.reverse parts).reverse).drop elems.length) ↔
    (r = true ∨ ups parts ≤ elems.length) ∧
      elems.drop (elems.length - ups parts) <+: downs parts := by
  have hno := dotdot_notMem_downs parts
  rw [(cleanRun_normal parts).2, reverse_append, reverse_reverse]
  generalize ups parts = k
  generalize downs parts = down at hno
  constructor
  · rintro ⟨⟨rest, hrest⟩, hout⟩
    rcases h.climb k with ⟨hroom, hclimb⟩ | ⟨rfl, j, n, names, rfl, hname, -, hclimb⟩
    · rw [hclimb, append_eq_take_append_iff] at hrest
      exact ⟨hroom, rest, hrest.symm⟩
    · -- above everything that has a name, there are climbs left
      rw [hclimb] at hrest hout
      rw [← hrest, drop_left] at hout
      rw [← replicate_append_replicate, append_assoc, append_assoc,
        append_right_inj, replicate_succ, cons_append] at hrest
      cases names with
      | nil =>
        rw [nil_append] at hrest
        exact absurd (hrest ▸ mem_cons_self) hout
      | cons name names =>
        rw [cons_append, cons.injEq] at hrest
        exact absurd hrest.1 (hname name mem_cons_self).ne_dotdot
  · rintro ⟨hroom, hback⟩
    rw [h.climb_back hno hroom hback]
    obtain ⟨rest, hrest⟩ := hback
    have hfull := append_eq_take_append_iff.2 hrest.symm
    refine ⟨⟨rest, hfull⟩, fun hmem => hno ?_⟩
    rw [← hfull, drop_left] at hmem
    rw [← hrest]
    exact mem_append_right _ hmem

/-! ## The parent of a path -/

theorem Reduced.dropLast (h : Reduced r (elems ++ [last])) : Reduced r elems := by
  obtain ⟨j, names, heq, hj, hnames⟩ := h.normal
  refine ⟨?_, fun elem helem => h.no_slash elem (mem_append_left _ helem)⟩
  rcases eq_nil_or_concat names with rfl | ⟨names, name, rfl⟩
  · rw [append_nil] at heq
    have hlen := congrArg length heq
    rw [length_append, length_singleton, length_replicate] at hlen
    have hall : elems = replicate (j - 1) dotdot := by
      refine eq_replicate_iff.2 ⟨by omega, fun elem helem => ?_⟩
      exact eq_of_mem_replicate (heq ▸ mem_append_left [last] helem)
    exact ⟨j - 1, [], by rw [hall, append_nil], fun hr => by rw [hj hr], by simp⟩
  · rw [concat_eq_append, ← append_assoc] at heq
    refine ⟨j, names, (append_inj' heq rfl).1, hj, fun n hn => hnames n ?_⟩
    rw [concat_eq_append]
    exact mem_append_left _ hn

theorem joinElems_concat (h : elems ≠ []) :
    joinElems (elems ++ [last]) = joinElems elems ++ ch '/' :: last := by
  induction elems with
  | nil => exact absurd rfl h
  | cons elem elems ih =>
    rcases eq_or_ne elems [] with rfl | hne
    · simp [joinElems]
    · rw [cons_append, joinElems_cons (by simp), ih hne, joinElems_cons hne, append_assoc,
        cons_append]

theorem rdropWhile_last {a last : Bytes} (h : ch '/' ∉ last) :
    (a ++ ch '/' :: last).rdropWhile (· ≠ ch '/') = a ++ [ch '/'] := by
  have hall : ∀ c ∈ last.reverse, (decide (c ≠ ch '/')) = true := fun c hc => by
    simp only [decide_eq_true_eq]
    exact fun heq => h (heq ▸ mem_reverse.1 hc)
  rw [rdropWhile, reverse_append, reverse_cons, append_assoc,
    dropWhile_append_of_pos hall, singleton_append,
    dropWhile_cons_of_neg (by simp), reverse_cons, reverse_reverse]

theorem rdropWhile_single (h : ch '/' ∉ last) : last.rdropWhile (· ≠ ch '/') = [] := by
  rw [rdropWhile_eq_nil_iff]
  intro c hc
  simp only [decide_eq_true_eq]
  exact fun heq => h (heq ▸ hc)

theorem lexical_slash_end {a : Bytes} (h : a ≠ []) : lexical (a ++ [ch '/']) = lexical a := by
  have hskip : ∀ r out, cleanRun r out (pathElems []) = out := fun r out => by
    rw [pathElems, splitOn_nil, cleanRun_skip]
    rfl
  rw [lexical, rooted_append h, pathElems_append, cleanRun_append, hskip, lexical]

theorem lexical_dirPath_cleanPath (path : Bytes) :
    lexical (dirPath (cleanPath path)) = ((lexical path).1, (lexical path).2.dropLast) := by
  have hred := reduced_lexical path
  rw [dirPath, lexical_cleanPath, cleanPath_eq]
  generalize lexical path = meaning at hred ⊢
  obtain ⟨r, elems⟩ := meaning
  dsimp only at hred ⊢
  rcases eq_nil_or_concat elems with rfl | ⟨elems, last, rfl⟩
  · cases r <;> decide
  rw [concat_eq_append] at hred ⊢
  have hlast : ch '/' ∉ last := hred.no_slash last (by simp)
  have hinit := hred.dropLast
  rw [dropLast_concat, if_neg (append_ne_nil_of_right_ne_nil _ (cons_ne_nil _ _))]
  cases r with
  | true =>
    rw [if_pos rfl]
    rcases eq_or_ne elems [] with rfl | hne
    · have hone := rdropWhile_last (a := []) hlast
      rw [nil_append] at hone
      rw [nil_append, joinElems_singleton, hone]
      decide
    · rw [joinElems_concat hne, ← cons_append, rdropWhile_last hlast,
        lexical_slash_end (cons_ne_nil _ _), hinit.lexical_slash]
  | false =>
    rw [if_neg Bool.false_ne_true]
    rcases eq_or_ne elems [] with rfl | hne
    · rw [nil_append, joinElems_singleton, rdropWhile_single hlast]
      decide
    · rw [joinElems_concat hne, rdropWhile_last hlast,
        lexical_slash_end (hinit.joinElems_ne_nil hne), hinit.lexical_joinElems hne]

/-! ## Joins that stay inside -/

def absolute : List Bytes → Bool
  | [] => false
  | part :: parts => if part = [] then absolute parts else rooted part

def Stays (root : Bytes) (parts : List Bytes) : Prop := (root = [] → absolute parts = false) ∧
    ((lexical root).1 = true ∨ ups (parts.flatMap pathElems) ≤ (lexical root).2.length) ∧
    (lexical root).2.drop ((lexical root).2.length - ups (parts.flatMap pathElems)) <+:
      downs (parts.flatMap pathElems)

def Below (root : Bytes) (parts : List Bytes) : Prop := Stays root parts ∧ ((lexical root).2 = [] ∨
    (lexical root).2.drop ((lexical root).2.length - ups (parts.flatMap pathElems)) ≠
      downs (parts.flatMap pathElems))

theorem lexical_joinPath_nil (parts : List Bytes) : lexical (joinPath parts) =
    (absolute parts, (cleanRun (absolute parts) [] (parts.flatMap pathElems)).reverse) := by
  induction parts with
  | nil => rfl
  | cons part parts ih =>
    rcases eq_or_ne part [] with rfl | hne
    · have hskip : ([] :: parts).flatMap pathElems = [] :: parts.flatMap pathElems := rfl
      rw [joinPath_nil_cons, ih, hskip, cleanRun_skip, absolute, if_pos rfl]
    · rw [lexical_joinPath hne, absolute, if_neg hne, flatMap_cons, cleanRun_append, lexical,
        reverse_reverse]

theorem inside_joinPath_iff (root : Bytes) (parts : List Bytes) :
    Inside root (joinPath (root :: parts)) ↔ Stays root parts := by
  have hrun := inside_run_iff (reduced_lexical root) (parts.flatMap pathElems)
  rw [Inside, Stays]
  rcases eq_or_ne root [] with rfl | hne
  · have hnil : lexical [] = (false, []) := rfl
    rw [joinPath_nil_cons, lexical_joinPath_nil]
    rw [hnil] at hrun ⊢
    dsimp only at hrun ⊢
    constructor
    · rintro ⟨habs, hin⟩
      rw [habs] at hin
      exact ⟨fun _ => habs, hrun.1 hin⟩
    · rintro ⟨habs, hstay⟩
      rw [habs rfl]
      exact ⟨rfl, hrun.2 hstay⟩
  · rw [lexical_joinPath hne]
    dsimp only
    rw [hrun]
    exact ⟨fun h => ⟨fun h0 => absurd h0 hne, h.2⟩, fun h => ⟨rfl, h.2⟩⟩

theorem lexical_dirPath_joinPath (parts : List Bytes) : lexical (dirPath (joinPath parts)) =
    ((lexical (joinPath parts)).1, (lexical (joinPath parts)).2.dropLast) := by
  induction parts with
  | nil => decide
  | cons part parts ih =>
    rcases eq_or_ne part [] with rfl | hne
    · rw [joinPath_nil_cons, ih]
    · rw [joinPath_eq hne, lexical_dirPath_cleanPath, lexical_cleanPath]

theorem Stays.elems_eq {parts} (h : Stays root parts) : (lexical (joinPath (root :: parts))).2 =
      (lexical root).2.take ((lexical root).2.length - ups (parts.flatMap pathElems)) ++
        downs (parts.flatMap pathElems) := by
  obtain ⟨habs, hroom, hback⟩ := h
  have hrun := (cleanRun_normal (parts.flatMap pathElems)).2
  have hclimb := (reduced_lexical root).climb_back (dotdot_notMem_downs _) hroom hback
  rcases eq_or_ne root [] with rfl | hne
  · rw [joinPath_nil_cons, lexical_joinPath_nil, habs rfl, hrun, reverse_append, reverse_reverse]
    exact congrArg (· ++ downs (parts.flatMap pathElems)) hclimb
  · rw [lexical_joinPath hne, hrun, reverse_append, reverse_reverse, hclimb]

theorem inside_parent_iff (root : Bytes) (parts : List Bytes) :
    Inside root (joinPath (root :: parts)) ∧ Inside root (dirPath (joinPath (root :: parts))) ↔
      Below root parts := by
  rw [Below, ← inside_joinPath_iff]
  refine and_congr_right fun hin => ?_
  have helems := ((inside_joinPath_iff root parts).1 hin).elems_eq
  obtain ⟨hroot, ⟨rest, hrest⟩, hout⟩ := hin
  have hdown := append_eq_take_append_iff.1 (hrest.trans helems)
  rw [Inside, lexical_dirPath_joinPath, hdown, ← hrest]
  rw [← hrest, drop_left] at hout
  dsimp only
  rcases eq_nil_or_concat rest with rfl | ⟨rest, last, rfl⟩
  · rw [append_nil, append_nil]
    refine ⟨fun h => .inl ?_, fun h => ?_⟩
    · have hlen := h.2.1.length_le
      rw [length_dropLast] at hlen
      exact length_eq_zero_iff.1 (by omega)
    · rw [h.resolve_right fun hne => hne rfl]
      exact ⟨hroot, nil_prefix, by simp⟩
  · rw [concat_eq_append] at hout ⊢
    rw [← append_assoc, dropLast_concat, drop_left]
    refine ⟨fun _ => .inr ?_, fun _ => ⟨hroot, prefix_append .., fun hmem => hout ?_⟩⟩
    · intro heq
      have := congrArg length heq
      simp at this
    · exact mem_append_left _ hmem

theorem lexical_joinPath_joinPath (root part : Bytes) (parts : List Bytes) :
    lexical (joinPath (joinPath [root, part] :: parts)) =
      lexical (joinPath (root :: part :: parts)) := by
  by_cases hnil : root = [] ∧ part = []
  · obtain ⟨rfl, rfl⟩ := hnil
    rfl
  have hne : joinPath [root, part] ≠ [] := by
    rcases eq_or_ne root [] with rfl | hroot
    · rw [joinPath_nil_cons, joinPath_eq fun hpart => hnil ⟨rfl, hpart⟩]
      exact cleanPath_ne_nil _
    · rw [joinPath_eq hroot]
      exact cleanPath_ne_nil _
  have habs : absolute [root, part] = absolute (root :: part :: parts) := by
    by_cases hroot : root = []
    · have hpart : part ≠ [] := fun hpart => hnil ⟨hroot, hpart⟩
      simp only [absolute, if_pos hroot, if_neg hpart]
    · simp only [absolute, if_neg hroot]
  rw [lexical_joinPath hne, lexical_joinPath_nil, lexical_joinPath_nil, habs]
  dsimp only
  rw [reverse_reverse, ← cleanRun_append]
  simp only [flatMap_cons, flatMap_nil, append_nil, append_assoc]

end GoI2pBt
