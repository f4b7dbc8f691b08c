import DeepJit.Library.FileTree
import DeepJit.Utils.Path

/-!
# What lexical normalisation keeps

`lexically_normal` looks at the text of a path only. Its result is its own normal form, and it leads
where the path leads, unless a `..` of the path stands behind a symbolic link.
-/

namespace DeepJit

open FileTree (Location Target Tree)

/-- A name that is kept for itself. -/
def Plain (name : Bytes) : Prop :=
  name ≠ [] ∧ name ≠ bytes "." ∧ name ≠ bytes ".." ∧ slash ∉ name

/-- The names that `lexically_normal` keeps, in reverse: plain ones, and before them, in a relative
path, any number of `..`. -/
inductive Kept (absolute : Bool) : List Bytes → Prop
  | nil : Kept absolute []
  | up {kept} : absolute = false → (∀ name ∈ kept, name = bytes "..") → Kept absolute kept →
      Kept absolute (bytes ".." :: kept)
  | plain {name kept} : Plain name → Kept absolute kept → Kept absolute (name :: kept)

section

variable {absolute : Bool} {kept names : List Bytes} {name : Bytes} {trailing : Bool}

theorem Kept.tail (h : Kept absolute (name :: kept)) : Kept absolute kept := by
  cases h with
  | up _ _ hkept => exact hkept
  | plain _ hkept => exact hkept

theorem Kept.not_slash (h : Kept absolute kept) : ∀ name ∈ kept, slash ∉ name := by
  induction h with
  | nil => simp
  | up _ _ _ ih =>
      intro name hname
      rcases List.mem_cons.mp hname with rfl | hname
      · decide
      · exact ih name hname
  | plain hplain _ ih =>
      intro name hname
      rcases List.mem_cons.mp hname with rfl | hname
      · exact hplain.2.2.2
      · exact ih name hname

theorem Kept.ne_nil (h : Kept absolute kept) : ∀ name ∈ kept, name ≠ [] := by
  induction h with
  | nil => simp
  | up _ _ _ ih =>
      intro name hname
      rcases List.mem_cons.mp hname with rfl | hname
      · decide
      · exact ih name hname
  | plain hplain _ ih =>
      intro name hname
      rcases List.mem_cons.mp hname with rfl | hname
      · exact hplain.1
      · exact ih name hname

/-- The four things that a name does. -/
theorem normalizeStep_cases (absolute : Bool) (kept : List Bytes) (trailing : Bool) (name : Bytes) :
    ((name = [] ∨ name = bytes ".") ∧ normalizeStep absolute (kept, trailing) name = (kept, true)) ∨
    (name = bytes ".." ∧ absolute = true ∧ kept = [] ∧
      normalizeStep absolute (kept, trailing) name = ([], true)) ∨
    (name = bytes ".." ∧ (kept = [] ∧ absolute = false ∨ ∃ rest, kept = bytes ".." :: rest) ∧
      normalizeStep absolute (kept, trailing) name = (bytes ".." :: kept, false)) ∨
    (name = bytes ".." ∧ ∃ last rest, kept = last :: rest ∧ last ≠ bytes ".." ∧
      normalizeStep absolute (kept, trailing) name = (rest, true)) ∨
    (name ≠ [] ∧ name ≠ bytes "." ∧ name ≠ bytes ".." ∧
      normalizeStep absolute (kept, trailing) name = (name :: kept, false)) := by
  by_cases hhere : name = [] ∨ name = bytes "."
  · exact .inl ⟨hhere, by rw [normalizeStep, if_pos hhere]⟩
  · right
    rw [normalizeStep, if_neg hhere]
    obtain ⟨hnil, hdot⟩ := not_or.mp hhere
    by_cases hup : name = bytes ".."
    · subst hup
      rw [if_pos rfl]
      cases kept with
      | nil =>
          cases absolute with
          | true => exact .inl ⟨rfl, rfl, rfl, rfl⟩
          | false => exact .inr (.inl ⟨rfl, .inl ⟨rfl, rfl⟩, rfl⟩)
      | cons last rest =>
          by_cases hlast : last = bytes ".."
          · subst hlast
            exact .inr (.inl ⟨rfl, .inr ⟨rest, rfl⟩, by simp⟩)
          · exact .inr (.inr (.inl ⟨rfl, last, rest, rfl, hlast, by simp [hlast]⟩))
    · rw [if_neg hup]
      exact .inr (.inr (.inr ⟨hnil, hdot, hup, rfl⟩))

theorem kept_normalizeStep (h : Kept absolute kept) (hname : slash ∉ name) :
    Kept absolute (normalizeStep absolute (kept, trailing) name).1 := by
  rcases normalizeStep_cases absolute kept trailing name with
    ⟨-, hstep⟩ | ⟨-, -, -, hstep⟩ | ⟨-, hup, hstep⟩ | ⟨-, last, rest, rfl, -, hstep⟩ | ⟨hnil, hdot, hup, hstep⟩
  · rw [hstep]
    exact h
  · rw [hstep]
    exact .nil
  · rw [hstep]
    rcases hup with ⟨rfl, habsolute⟩ | ⟨rest, rfl⟩
    · exact .up habsolute (by simp) .nil
    · cases h with
      | up habsolute hall hrest => exact .up habsolute (by simpa using hall) (.up habsolute hall hrest)
      | plain hplain _ => exact absurd rfl hplain.2.2.1
  · rw [hstep]
    exact h.tail
  · rw [hstep]
    exact .plain ⟨hnil, hdot, hup, hname⟩ h

theorem kept_foldl (hnames : ∀ name ∈ names, slash ∉ name) (state : List Bytes × Bool) (h : Kept absolute state.1) :
    Kept absolute (names.foldl (normalizeStep absolute) state).1 := by
  induction names generalizing state with
  | nil => exact h
  | cons name names ih =>
      apply ih (fun other hother => hnames other (List.mem_cons_of_mem _ hother))
      exact kept_normalizeStep h (hnames name List.mem_cons_self)

/-! ### The text of the result -/

/-- The names of the result, as the separators split it. -/
def normalNames (absolute : Bool) (kept : List Bytes) (trailing : Bool) : List Bytes :=
  if kept = [] then if absolute then [[], []] else [bytes "."]
  else (if absolute then [[]] else []) ++ kept.reverse ++
    if trailing ∧ kept.head? ≠ some (bytes "..") then [[]] else []

theorem intercalate_concat_nil (hnames : names ≠ []) :
    [slash].intercalate (names ++ [[]]) = [slash].intercalate names ++ [slash] := by
  induction names with
  | nil => exact absurd rfl hnames
  | cons name names ih =>
      cases names with
      | nil => simp
      | cons next names =>
          have hmore := ih (by simp)
          simp only [List.cons_append, List.intercalate_cons_cons] at hmore ⊢
          rw [hmore]
          simp

theorem intercalate_ne_nil (hkept : kept ≠ []) (hne : ∀ name ∈ kept, name ≠ []) :
    [slash].intercalate kept.reverse ≠ [] := by
  obtain ⟨name, names, hreverse⟩ := List.exists_cons_of_ne_nil (List.reverse_ne_nil_iff.mpr hkept)
  have hname : name ≠ [] := hne name (List.mem_reverse.mp (hreverse ▸ List.mem_cons_self))
  rw [hreverse]
  cases names with
  | nil => simpa using hname
  | cons next names => simp

/-- The result is made of the names that were kept. -/
theorem lexicallyNormal_eq {path : Bytes} (hpath : path ≠ []) (absolute : Bool)
    (habsolute : absolute = decide (path.head? = some slash))
    (hfold : (path.splitOn slash).foldl (normalizeStep absolute) ([], false) = (kept, trailing))
    (hkept : Kept absolute kept) :
    lexicallyNormal path = [slash].intercalate (normalNames absolute kept trailing) := by
  have hhead : path.head? = some slash ↔ absolute = true := by rw [habsolute, decide_eq_true_eq]
  rw [lexicallyNormal, if_neg hpath]
  simp only [hhead, Bool.decide_eq_true, hfold]
  by_cases hnil : kept = []
  · subst hnil
    cases absolute with
    | true => simp [normalNames]
    | false => simp [normalNames]
  · have hne := intercalate_ne_nil hnil hkept.ne_nil
    have hreverse : kept.reverse ≠ [] := List.reverse_ne_nil_iff.mpr hnil
    rw [normalNames, if_neg hnil, if_neg (by simp [hne])]
    have hroot (names : List Bytes) (hnames : names ≠ []) :
        [slash].intercalate ((if absolute = true then [[]] else []) ++ names) =
          (if absolute = true then [slash] else []) ++ [slash].intercalate names := by
      cases absolute with
      | true => simp [List.intercalate_cons_of_ne_nil hnames]
      | false => simp
    rw [List.append_assoc, List.append_assoc, hroot _ (by simp [hnil])]
    congr 1
    by_cases htail : trailing = true ∧ kept.head? ≠ some (bytes "..")
    · rw [if_pos htail, if_pos ⟨htail.1, hnil, htail.2⟩, intercalate_concat_nil hreverse]
    · rw [if_neg htail, if_neg fun h => htail ⟨h.1, h.2.2⟩, List.append_nil, List.append_nil]

theorem normalNames_not_slash (hkept : Kept absolute kept) :
    ∀ name ∈ normalNames absolute kept trailing, slash ∉ name := by
  intro name hname
  rw [normalNames] at hname
  split at hname
  · cases absolute with
    | true =>
        obtain rfl : name = [] := by simpa using hname
        simp
    | false =>
        obtain rfl : name = bytes "." := by simpa using hname
        decide
  · rcases List.mem_append.mp hname with hname | hname
    · rcases List.mem_append.mp hname with hname | hname
      · obtain rfl : name = [] := by
          cases absolute with
          | true => simpa using hname
          | false => simp at hname
        simp
      · exact hkept.not_slash name (List.mem_reverse.mp hname)
    · obtain rfl : name = [] := by
        split at hname
        · simpa using hname
        · simp at hname
      simp

theorem normalNames_ne_nil : normalNames absolute kept trailing ≠ [] := by
  rw [normalNames]
  split
  · split <;> simp
  · rename_i hkept
    simp [hkept]

/-- A separator in front shows in the first name. -/
theorem head_eq_slash_iff {path : Bytes} (hpath : path ≠ []) :
    path.head? = some slash ↔ (path.splitOn slash).head? = some [] := by
  obtain ⟨c, rest, rfl⟩ := List.exists_cons_of_ne_nil hpath
  obtain ⟨first, others, hsplit⟩ := List.exists_cons_of_ne_nil (List.splitOn_ne_nil slash rest)
  rw [List.splitOn_cons_eq_if_modifyHead, hsplit]
  by_cases hc : c = slash
  · simp [hc]
  · simp [hc]

theorem head_normalNames (hkept : Kept absolute kept) :
    (normalNames absolute kept trailing).head? = some [] ↔ absolute = true := by
  rw [normalNames]
  cases absolute with
  | true => split <;> simp
  | false =>
      split
      · simp [bytes]
      · rename_i hnil
        obtain ⟨name, names, hreverse⟩ := List.exists_cons_of_ne_nil (List.reverse_ne_nil_iff.mpr hnil)
        have hname : name ≠ [] := hkept.ne_nil name (List.mem_reverse.mp (hreverse ▸ List.mem_cons_self))
        simp [hreverse, hname]

/-! ### Normal forms -/

/-- What the names of a path come to. -/
def normalized (path : Bytes) : List Bytes × Bool :=
  (path.splitOn slash).foldl (normalizeStep (path.head? = some slash)) ([], false)

theorem kept_normalized (path : Bytes) : Kept (path.head? = some slash) (normalized path).1 :=
  kept_foldl (fun _ hname => not_mem_of_mem_splitOn hname) _ .nil

theorem splitOn_lexicallyNormal {path : Bytes} (hpath : path ≠ []) :
    (lexicallyNormal path).splitOn slash =
      normalNames (path.head? = some slash) (normalized path).1 (normalized path).2 := by
  have hfold : (path.splitOn slash).foldl (normalizeStep (path.head? = some slash)) ([], false) =
      ((normalized path).1, (normalized path).2) := rfl
  rw [lexicallyNormal_eq hpath _ rfl hfold (kept_normalized path),
    List.splitOn_intercalate slash (normalNames_not_slash (kept_normalized path)) normalNames_ne_nil]

theorem lexicallyNormal_ne_nil {path : Bytes} (hpath : path ≠ []) : lexicallyNormal path ≠ [] := by
  have hdot (normal : Bytes) : (if normal = [] then bytes "." else normal) ≠ [] := by
    split
    · decide
    · assumption
  rw [lexicallyNormal, if_neg hpath]
  exact hdot _

theorem head_lexicallyNormal {path : Bytes} (hpath : path ≠ []) :
    (lexicallyNormal path).head? = some slash ↔ path.head? = some slash := by
  rw [head_eq_slash_iff (lexicallyNormal_ne_nil hpath), splitOn_lexicallyNormal hpath,
    head_normalNames (kept_normalized path), decide_eq_true_eq]

/-- The names that were kept are kept again. -/
theorem foldl_kept (hkept : Kept absolute kept) (trailing : Bool) :
    ∃ trailing', kept.reverse.foldl (normalizeStep absolute) ([], trailing) = (kept, trailing') ∧
      (kept ≠ [] → trailing' = false) := by
  induction hkept with
  | nil => exact ⟨trailing, rfl, fun h => absurd rfl h⟩
  | @up kept habsolute hall _ ih =>
      obtain ⟨before, hfold, -⟩ := ih
      refine ⟨false, ?_, fun _ => rfl⟩
      rw [List.reverse_cons, List.foldl_append, hfold, List.foldl_cons, List.foldl_nil, normalizeStep,
        if_neg (by decide), if_pos rfl]
      cases kept with
      | nil => simp [habsolute]
      | cons last rest => simp [hall last List.mem_cons_self]
  | @plain name kept hplain _ ih =>
      obtain ⟨before, hfold, -⟩ := ih
      refine ⟨false, ?_, fun _ => rfl⟩
      rw [List.reverse_cons, List.foldl_append, hfold, List.foldl_cons, List.foldl_nil, normalizeStep,
        if_neg (by simp [hplain.1, hplain.2.1]), if_neg hplain.2.2.1]

theorem foldl_normalNames (hkept : Kept absolute kept) :
    ∃ trailing', (normalNames absolute kept trailing).foldl (normalizeStep absolute) ([], false) =
      (kept, trailing') ∧ normalNames absolute kept trailing' = normalNames absolute kept trailing := by
  have hhere (state : List Bytes × Bool) : normalizeStep absolute state [] = (state.1, true) := by
    rw [normalizeStep, if_pos (.inl rfl)]
  by_cases hnil : kept = []
  · subst hnil
    refine ⟨true, ?_, by simp [normalNames]⟩
    rw [normalNames, if_pos rfl]
    cases absolute with
    | true => simp [hhere]
    | false => simp [normalizeStep]
  · have hroot : ∃ trailing', ((if absolute = true then [[]] else []) ++ kept.reverse).foldl
        (normalizeStep absolute) ([], false) = (kept, trailing') ∧ trailing' = false := by
      rw [List.foldl_append]
      cases absolute with
      | true =>
          obtain ⟨trailing', hfold, hfalse⟩ := foldl_kept hkept true
          refine ⟨trailing', ?_, hfalse hnil⟩
          rw [if_pos rfl, List.foldl_cons, List.foldl_nil, hhere, hfold]
      | false =>
          obtain ⟨trailing', hfold, hfalse⟩ := foldl_kept hkept false
          exact ⟨trailing', by simpa using hfold, hfalse hnil⟩
    obtain ⟨trailing', hfold, rfl⟩ := hroot
    rw [normalNames, if_neg hnil, List.foldl_append, hfold]
    split
    · rename_i htail
      refine ⟨true, ?_, ?_⟩
      · rw [List.foldl_cons, List.foldl_nil, hhere]
      · simp [normalNames, hnil, htail.2]
    · refine ⟨false, rfl, ?_⟩
      simp [normalNames, hnil]

/-- Normal forms stay. -/
theorem lexicallyNormal_idem (path : Bytes) : lexicallyNormal (lexicallyNormal path) = lexicallyNormal path := by
  by_cases hpath : path = []
  · subst hpath
    rfl
  · have hkept := kept_normalized path
    obtain ⟨trailing', hfold, hsame⟩ := @foldl_normalNames _ _ (normalized path).2 hkept
    have hhead : (decide (path.head? = some slash)) = decide ((lexicallyNormal path).head? = some slash) := by
      rw [decide_eq_decide, head_lexicallyNormal hpath]
    rw [lexicallyNormal_eq (lexicallyNormal_ne_nil hpath) _ hhead
      ((splitOn_lexicallyNormal hpath).symm ▸ hfold) hkept, hsame, lexicallyNormal_eq hpath _ rfl rfl hkept]
    rfl

end

/-! ### Where paths lead -/

/-- What a file name asks of a walk. A separator with nothing behind it asks for a directory. -/
def partOf (name : Bytes) : FileTree.Part Bytes :=
  if name = [] ∨ name = bytes "." then .here else if name = bytes ".." then .up else .entry name

/-- A path that is not empty, as the operating system follows it. -/
def targetOf (path : Bytes) : Target Bytes := ⟨path.head? = some slash, (path.splitOn slash).map partOf⟩

section

variable (tree : Tree Bytes Bytes) (links : Nat) (cwd : Location Bytes)

/-- Where a path leads. -/
def leadsTo (path : Bytes) : Option (Location Bytes × Nat) :=
  tree.walk links ((targetOf path).start cwd) (targetOf path).parts

/-- A name that a later `..` cancels is no symbolic link where the names before it lead. -/
def Straight (path : Bytes) : Prop :=
  ∀ front rest last kept, path.splitOn slash = front ++ bytes ".." :: rest →
    (front.foldl (normalizeStep (path.head? = some slash)) ([], false)).1 = last :: kept → last ≠ bytes ".." →
    ∀ loc left, tree.walk links ((targetOf path).start cwd) (kept.reverse.map partOf) = some (loc, left) →
      ∀ target, tree.node (last :: loc) ≠ some (.link target)

variable {tree links cwd} {start loc : Location Bytes} {left budget : Nat} {absolute : Bool} {kept : List Bytes}
  {name : Bytes}

theorem walk_here : tree.walk budget loc [.here] = if tree.isDirectory loc then some (loc, budget) else none := by
  cases budget <;> rfl

theorem walk_up : tree.walk budget loc [.up] = if tree.isDirectory loc then some (loc.tail, budget) else none := by
  cases budget <;> rfl

theorem walk_concat (front : List (FileTree.Part Bytes)) (part : FileTree.Part Bytes) {reached : Location Bytes × Nat} :
    tree.walk links start (front ++ [part]) = some reached ↔
      ∃ loc left, tree.walk links start front = some (loc, left) ∧ tree.walk left loc [part] = some reached := by
  rw [Tree.walk_append, Option.bind_eq_some_iff]
  exact Prod.exists

theorem walk_plain_concat (hname : partOf name = .entry name) {reached : Location Bytes × Nat} :
    tree.walk links start ((name :: kept).reverse.map partOf) = some reached ↔
      ∃ loc left, tree.walk links start (kept.reverse.map partOf) = some (loc, left) ∧
        tree.walk left loc [.entry name] = some reached := by
  rw [List.reverse_cons, List.map_append, List.map_singleton, hname]
  exact walk_concat _ _

theorem partOf_plain (hnil : name ≠ []) (hdot : name ≠ bytes ".") (hup : name ≠ bytes "..") :
    partOf name = .entry name := by
  rw [partOf, if_neg (by simp [hnil, hdot]), if_neg hup]

theorem partOf_up : partOf (bytes "..") = .up := by
  rw [partOf, if_neg (by decide), if_pos rfl]

theorem Kept.plain_of_ne (h : Kept absolute (name :: kept)) (hup : name ≠ bytes "..") : Plain name := by
  cases h with
  | up _ _ _ => exact absurd rfl hup
  | plain hplain _ => exact hplain

/-- An entry that is no link is its own place. -/
theorem entry_eq {reached : Location Bytes × Nat} (hlink : ∀ target, tree.node (name :: loc) ≠ some (.link target))
    (h : tree.walk budget loc [.entry name] = some reached) :
    reached = (name :: loc, budget) ∧ tree.isDirectory loc = true := by
  have hnode : tree.node (name :: loc) ≠ none := by
    intro hnone
    rw [tree.walk_entry_none budget hnone] at h
    simp at h
  rw [tree.walk_entry budget hnode hlink] at h
  exact ⟨(Option.some.inj h).symm, tree.isDirectory_of_entry hnode⟩

/-- The names that are kept of the front of a path lead where the front leads. The induction adds one
name at the end. -/
theorem walk_front {path : Bytes} (hstraight : Straight tree links cwd path)
    (hstart : tree.isDirectory ((targetOf path).start cwd) = true) (front rest : List Bytes)
    (hsplit : path.splitOn slash = front ++ rest) :
    ∀ loc left, tree.walk links ((targetOf path).start cwd) (front.map partOf) = some (loc, left) →
      tree.walk links ((targetOf path).start cwd)
        ((front.foldl (normalizeStep (path.head? = some slash)) ([], false)).1.reverse.map partOf) =
          some (loc, left) ∧
      ((front.foldl (normalizeStep (path.head? = some slash)) ([], false)).2 = true →
        tree.isDirectory loc = true) := by
  induction front using List.reverseRecOn generalizing rest with
  | nil =>
      intro loc left hwalk
      exact ⟨hwalk, by simp⟩
  | append_singleton front name ih =>
      intro loc left hwalk
      have hsplit' : path.splitOn slash = front ++ name :: rest := by simp [hsplit]
      rw [List.map_append, List.map_singleton, walk_concat] at hwalk
      obtain ⟨middle, more, hfront, hname⟩ := hwalk
      obtain ⟨hkept, -⟩ := ih (name :: rest) hsplit' middle more hfront
      have hnames : ∀ name ∈ front, slash ∉ name := fun other hother =>
        not_mem_of_mem_splitOn (hsplit'.symm ▸ List.mem_append_left _ hother)
      have hform : Kept (path.head? = some slash)
          (front.foldl (normalizeStep (path.head? = some slash)) ([], false)).1 := kept_foldl hnames _ .nil
      rw [List.foldl_append, List.foldl_cons, List.foldl_nil]
      obtain ⟨kept, trailing, hfold⟩ : ∃ kept trailing, front.foldl
          (normalizeStep (path.head? = some slash)) ([], false) = (kept, trailing) := ⟨_, _, rfl⟩
      rw [hfold] at hkept hform ⊢
      rcases normalizeStep_cases (path.head? = some slash) kept trailing name with
        ⟨hhere, hstep⟩ | ⟨rfl, habsolute, rfl, hstep⟩ | ⟨rfl, -, hstep⟩ |
          ⟨rfl, last, shorter, rfl, hlast, hstep⟩ | ⟨hnil, hdot, hup, hstep⟩
      · rw [hstep]
        rw [partOf, if_pos hhere, walk_here] at hname
        split at hname
        · rename_i hdir
          obtain ⟨rfl, rfl⟩ := Prod.mk.inj (Option.some.inj hname)
          exact ⟨hkept, fun _ => hdir⟩
        · simp at hname
      · -- The root is its own parent.
        rw [hstep]
        have hroot : (targetOf path).start cwd = [] := by
          rw [decide_eq_true_eq] at habsolute
          simp [targetOf, Target.start, habsolute]
        rw [hroot] at hkept hstart ⊢
        obtain ⟨rfl, rfl⟩ := Prod.mk.inj (Option.some.inj ((tree.walk_nil links []).symm.trans hkept))
        rw [partOf_up, walk_up, if_pos hstart] at hname
        obtain ⟨rfl, rfl⟩ := Prod.mk.inj (Option.some.inj hname)
        exact ⟨tree.walk_nil links [], fun _ => hstart⟩
      · rw [hstep]
        refine ⟨?_, by simp⟩
        rw [List.reverse_cons, List.map_append, List.map_singleton, walk_concat]
        exact ⟨middle, more, hkept, hname⟩
      · rw [hstep]
        have hplain := hform.plain_of_ne hlast
        rw [walk_plain_concat (partOf_plain hplain.1 hplain.2.1 hplain.2.2.1)] at hkept
        obtain ⟨above, before, habove, hentry⟩ := hkept
        have hlink := hstraight front rest last shorter hsplit' (by rw [hfold]) hlast above before habove
        obtain ⟨heq, hdir⟩ := entry_eq hlink hentry
        obtain ⟨rfl, rfl⟩ := Prod.mk.inj heq
        rw [partOf_up, walk_up] at hname
        split at hname
        · obtain ⟨rfl, rfl⟩ := Prod.mk.inj (Option.some.inj hname)
          exact ⟨habove, fun _ => hdir⟩
        · simp at hname
      · rw [hstep]
        refine ⟨?_, by simp⟩
        have hentry := partOf_plain hnil hdot hup
        rw [walk_plain_concat hentry]
        exact ⟨middle, more, hkept, hentry ▸ hname⟩

/-- A path that leads somewhere leads there in its normal form, if it is straight. -/
theorem leadsTo_lexicallyNormal {path : Bytes} (hpath : path ≠ []) (hcwd : tree.isDirectory cwd = true)
    (hstraight : Straight tree links cwd path) {reached : Location Bytes × Nat}
    (h : leadsTo tree links cwd path = some reached) :
    leadsTo tree links cwd (lexicallyNormal path) = some reached := by
  obtain ⟨loc, left⟩ := reached
  have habsolute : (targetOf (lexicallyNormal path)).start cwd = (targetOf path).start cwd := by
    simp [targetOf, Target.start, head_lexicallyNormal hpath]
  have hstart : tree.isDirectory ((targetOf path).start cwd) = true := by
    rw [Target.start]
    split
    · rw [tree.isDirectory_iff, tree.node_root]
    · exact hcwd
  obtain ⟨hkept, htrailing⟩ := walk_front hstraight hstart (path.splitOn slash) [] (by simp) loc left h
  change tree.walk links _ ((normalized path).1.reverse.map partOf) = _ at hkept
  change (normalized path).2 = true → _ at htrailing
  have hhere : partOf [] = .here := rfl
  have hdot : partOf (bytes ".") = .here := by rw [partOf, if_pos (.inr rfl)]
  have hparts : (targetOf (lexicallyNormal path)).parts =
      (normalNames (path.head? = some slash) (normalized path).1 (normalized path).2).map partOf := by
    rw [targetOf, splitOn_lexicallyNormal hpath]
  rw [leadsTo, habsolute, hparts, normalNames]
  split
  · rename_i hnil
    rw [hnil, List.reverse_nil, List.map_nil, Tree.walk_nil] at hkept
    obtain ⟨rfl, rfl⟩ := Prod.mk.inj (Option.some.inj hkept)
    split
    · simp only [List.map_cons, List.map_nil, hhere]
      rw [show [FileTree.Part.here, .here] = [.here] ++ [.here] from rfl, walk_concat]
      exact ⟨_, _, by rw [walk_here, if_pos hstart], by rw [walk_here, if_pos hstart]⟩
    · rw [List.map_singleton, hdot, walk_here, if_pos hstart]
  · rename_i hnil
    have hfront : tree.walk links ((targetOf path).start cwd)
        (((if decide (path.head? = some slash) = true then [[]] else []) ++
          (normalized path).1.reverse).map partOf) = some (loc, left) := by
      rw [List.map_append, Tree.walk_append]
      split
      · rw [List.map_singleton, hhere, walk_here, if_pos hstart, Option.bind_some]
        exact hkept
      · rw [List.map_nil, Tree.walk_nil, Option.bind_some]
        exact hkept
    rw [List.map_append, Tree.walk_append, hfront, Option.bind_some]
    split
    · rename_i htail
      rw [List.map_singleton, hhere, walk_here, if_pos (htrailing htail.1)]
    · rw [List.map_nil, Tree.walk_nil]

/-- Without `..` nothing is cancelled. -/
theorem straight_of_not_mem {path : Bytes} (hup : bytes ".." ∉ path.splitOn slash) :
    Straight tree links cwd path := by
  intro front rest last kept hsplit
  exact absurd (hsplit ▸ List.mem_append_right _ List.mem_cons_self) hup

/-! ### Absolute paths -/

/-- A relative path in a directory is followed from there. -/
theorem leadsTo_appendPath {dir filename : Bytes} (hdir : dir.head? = some slash)
    (hrelative : filename.head? ≠ some slash) {location : Location Bytes} {left : Nat}
    (hleads : leadsTo tree links cwd dir = some (location, left)) (hlocation : tree.isDirectory location = true) :
    leadsTo tree links cwd (appendPath dir filename) = leadsTo tree left location filename := by
  have hne : dir ≠ [] := by
    rintro rfl
    simp at hdir
  -- Behind the directory, the names of the other path follow.
  have hsplit (front : Bytes) (hfront : front.head? = some slash ∨ front = [])
      (hwalk : tree.walk links [] ((front.splitOn slash).map partOf) = some (location, left)) :
      leadsTo tree links cwd (front ++ slash :: filename) = leadsTo tree left location filename := by
    have hhead : (front ++ slash :: filename).head? = some slash := by
      rcases hfront with hfront | rfl
      · rw [List.head?_append, hfront]
        rfl
      · rfl
    have hparts : (front ++ slash :: filename).splitOn slash = front.splitOn slash ++ filename.splitOn slash :=
      List.splitOn_append_cons_self front filename
    simp only [leadsTo, targetOf, Target.start, hhead, decide_true, if_true, hrelative, decide_false,
      Bool.false_eq_true, if_false]
    rw [hparts, List.map_append, Tree.walk_append, hwalk, Option.bind_some]
  have hwalk : tree.walk links [] ((dir.splitOn slash).map partOf) = some (location, left) := by
    simpa [leadsTo, targetOf, Target.start, hdir] using hleads
  rw [appendPath, if_neg hrelative]
  split
  · rename_i htrailing
    obtain ⟨front, rfl⟩ : ∃ front, dir = front ++ [slash] := by
      rcases htrailing with rfl | hlast
      · exact absurd rfl hne
      · exact List.getLast?_eq_some_iff.mp hlast
    rw [List.append_assoc]
    apply hsplit
    · cases front with
      | nil => exact .inr rfl
      | cons c front => exact .inl (by simpa using hdir)
    · have hparts : (front ++ [slash]).splitOn slash = front.splitOn slash ++ [[]] :=
        List.splitOn_append_cons_self front []
      rw [hparts, List.map_append, List.map_singleton, walk_concat] at hwalk
      obtain ⟨loc, more, hfront, hhere⟩ := hwalk
      rw [show partOf [] = .here from rfl, walk_here] at hhere
      split at hhere
      · obtain ⟨rfl, rfl⟩ := Prod.mk.inj (Option.some.inj hhere)
        exact hfront
      · simp at hhere
  · exact hsplit dir (.inl hdir) hwalk

/-- An absolute path is followed from the root. -/
theorem leadsTo_absolute {dir filename : Bytes} (habsolute : filename.head? = some slash) (cwd' : Location Bytes) :
    leadsTo tree links cwd (appendPath dir filename) = leadsTo tree links cwd' filename := by
  rw [appendPath, if_pos habsolute]
  simp [leadsTo, targetOf, Target.start, habsolute]

/-- `std::filesystem::absolute`. -/
def absolutePath (currentPath path : Bytes) : Bytes := if path = [] then [] else appendPath currentPath path

/-- `normalize_path`. -/
def normalizePath (currentPath : Bytes) (path : Option Bytes) : Option Bytes :=
  match path with
  | none => none
  | some path => if path = [] then none else some (lexicallyNormal (absolutePath currentPath path))

theorem appendPath_ne_nil {dir filename : Bytes} (hfilename : filename ≠ []) : appendPath dir filename ≠ [] := by
  rw [appendPath]
  split
  · exact hfilename
  · split
    · simp [hfilename]
    · simp

theorem head_appendPath {dir filename : Bytes} (hdir : dir.head? = some slash) :
    (appendPath dir filename).head? = some slash := by
  rw [appendPath]
  split
  · assumption
  · split
    · rw [List.head?_append, hdir]
      rfl
    · rw [List.head?_append, hdir]
      rfl

/-- A path of the caller becomes absolute and its own normal form, and leads where it led from the
working directory. -/
theorem normalizePath_leads {currentPath path normal : Bytes} (hcurrent : currentPath.head? = some slash)
    (hcwd : leadsTo tree links cwd currentPath = some (cwd, links)) (hdirectory : tree.isDirectory cwd = true)
    (h : normalizePath currentPath (some path) = some normal) :
    normal.head? = some slash ∧ lexicallyNormal normal = normal ∧
      (Straight tree links cwd (absolutePath currentPath path) → ∀ reached,
        leadsTo tree links cwd path = some reached → leadsTo tree links cwd normal = some reached) := by
  rw [normalizePath] at h
  split at h
  · simp at h
  · rename_i hpath
    obtain rfl := Option.some.inj h
    have habsolute : absolutePath currentPath path = appendPath currentPath path := by
      rw [absolutePath, if_neg hpath]
    have hne : absolutePath currentPath path ≠ [] := habsolute ▸ appendPath_ne_nil hpath
    refine ⟨?_, lexicallyNormal_idem _, fun hstraight reached hreached => ?_⟩
    · rw [head_lexicallyNormal hne, habsolute]
      exact head_appendPath hcurrent
    · apply leadsTo_lexicallyNormal hne hdirectory hstraight
      rw [habsolute]
      by_cases hhead : path.head? = some slash
      · rw [leadsTo_absolute hhead cwd]
        exact hreached
      · rw [leadsTo_appendPath hcurrent hhead hcwd hdirectory]
        exact hreached

/-- Without links every path is straight. -/
theorem straight_of_no_links (hlinks : ∀ loc target, tree.node loc ≠ some (.link target)) (path : Bytes) :
    Straight tree links cwd path := fun _ _ _ _ _ _ _ _ _ _ target => hlinks _ target

/-- A header below the root, and a directory to work in. -/
def headerTree : Tree Bytes Bytes :=
  ((Tree.root.create (bytes "work") [] .directory Tree.isDirectory_root rfl).create (bytes "include") [] .directory rfl rfl).create
    (bytes "a.h") [bytes "include"] (.file []) rfl rfl

theorem headerTree_no_links (loc : Location Bytes) (target : Target Bytes) :
    headerTree.node loc ≠ some (.link target) := by
  simp only [headerTree, Tree.create, Tree.root]
  split
  · simp
  · split
    · simp
    · split
      · simp
      · split <;> simp

theorem normalizePath_leads_header : leadsTo headerTree 40 [bytes "work"] (bytes "/include/a.h") =
    some ([bytes "a.h", bytes "include"], 40) :=
  (@normalizePath_leads headerTree 40 [bytes "work"] (bytes "/work") (bytes "../include//./a.h")
    (bytes "/include/a.h") rfl (by decide +kernel) (by decide +kernel) (by decide +kernel)).2.2
    (straight_of_no_links headerTree_no_links _) _ (by decide +kernel)

end

end DeepJit
