import PatternText.Proofs.Grammar.Spelling

/-! What the queries of a tree find. A node is known by the path to it, which lists the numbers of the
children to go to from the root on; in tree order a node comes before those below it and these come from
left to right, so that is the lexicographic order of their paths. Both queries walk through a forest. One
of them passes by what is below a node that it finds and the other one stops there, so the second one
finds the first node that the first one does. -/

namespace PatternText.ParseTree

variable {name : String} {t u v : ParseTree} {path : List Nat}

/-! ### Walks through forests -/

theorem collectNamed_leaf (name : String) (found : Array ParseTree) (c : Option Char)
    (ts : List ParseTree) : collectNamed name found (.leaf c :: ts) = collectNamed name found ts := by
  rw [collectNamed]
  rfl

theorem collectNamed_bears (h : t.bears name = true) (found : Array ParseTree)
    (ts : List ParseTree) :
    collectNamed name found (t :: ts) = collectNamed name (found.push t) ts := by
  rw [collectNamed, if_pos h]

theorem collectNamed_passes (h : t.bears name = false) (found : Array ParseTree)
    (ts : List ParseTree) :
    collectNamed name found (t :: ts) = collectNamed name found (t.children ++ ts) := by
  rw [collectNamed, h]
  rfl

theorem firstNamed_leaf (name : String) (c : Option Char) (ts : List ParseTree) :
    firstNamed name (.leaf c :: ts) = firstNamed name ts := by
  rw [firstNamed]
  rfl

theorem firstNamed_bears (h : t.bears name = true) (ts : List ParseTree) :
    firstNamed name (t :: ts) = some t := by
  rw [firstNamed, if_pos h]

theorem firstNamed_passes (h : t.bears name = false) (ts : List ParseTree) :
    firstNamed name (t :: ts) = firstNamed name (t.children ++ ts) := by
  rw [firstNamed, if_neg (Bool.eq_false_iff.1 h)]

theorem collectNamed_append (name : String) (found : Array ParseTree) (us ts : List ParseTree) :
    collectNamed name found (us ++ ts) = collectNamed name (collectNamed name found us) ts := by
  fun_induction collectNamed name found us with
  | case1 found => rfl
  | case2 found t us hbears ih => rw [List.cons_append, collectNamed_bears hbears, ih]
  | case3 found t us hother ih =>
    rw [List.cons_append, collectNamed_passes (Bool.eq_false_iff.2 hother), ← List.append_assoc, ih]

theorem firstNamed_append (name : String) (us ts : List ParseTree) :
    firstNamed name (us ++ ts) = (firstNamed name us).or (firstNamed name ts) := by
  fun_induction firstNamed name us with
  | case1 => rfl
  | case2 t us hbears => rw [List.cons_append, firstNamed_bears hbears, Option.some_or]
  | case3 t us hother ih =>
    rw [List.cons_append, firstNamed_passes (Bool.eq_false_iff.2 hother), ← List.append_assoc, ih]

/-- What was found before stays in front. -/
theorem collectNamed_append_found (name : String) (before found : Array ParseTree)
    (ts : List ParseTree) :
    collectNamed name (before ++ found) ts = before ++ collectNamed name found ts := by
  fun_induction collectNamed name found ts with
  | case1 found => rw [collectNamed]
  | case2 found t ts hbears ih => rw [collectNamed_bears hbears, ← Array.append_push, ih]
  | case3 found t ts hother ih => rw [collectNamed_passes (Bool.eq_false_iff.2 hother), ih]

/-- Each tree of a forest is searched by itself. -/
theorem toList_collectNamed (name : String) (ts : List ParseTree) :
    (collectNamed name #[] ts).toList = ts.flatMap (·.findAll name) := by
  induction ts with
  | nil =>
    rw [collectNamed]
    rfl
  | cons t ts ih =>
    rw [List.flatMap_cons, ← ih, findAll, ← Array.toList_append, ← collectNamed_append_found,
      Array.append_empty, ← collectNamed_append, List.singleton_append]

theorem findAll_bears (h : t.bears name = true) : t.findAll name = [t] := by
  rw [findAll, collectNamed_bears h, collectNamed]
  rfl

theorem findAll_passes (h : t.bears name = false) :
    t.findAll name = t.children.flatMap (·.findAll name) := by
  rw [findAll, collectNamed_passes h, List.append_nil, toList_collectNamed]

/-- A walk that stops at the first tree found gives the first one of all. -/
theorem firstNamed_eq_head? (name : String) (ts : List ParseTree) :
    firstNamed name ts = (collectNamed name #[] ts).toList.head? := by
  fun_induction firstNamed name ts with
  | case1 =>
    rw [collectNamed]
    rfl
  | case2 t ts hbears =>
    rw [toList_collectNamed, List.flatMap_cons, findAll_bears hbears]
    rfl
  | case3 t ts hother ih => rw [collectNamed_passes (Bool.eq_false_iff.2 hother), ih]

theorem findFirst_eq_head? (t : ParseTree) (name : String) :
    t.findFirst name = (t.findAll name).head? :=
  firstNamed_eq_head? name [t]

/-! ### Paths -/

/-- The tree that a path leads to. -/
def descend? : ParseTree → List Nat → Option ParseTree
  | t, [] => some t
  | t, i :: path => (t.children[i]?).bind fun u => u.descend? path

/-- Where in the text the tree at the end of a path begins. -/
def offset : ParseTree → List Nat → Nat
  | _, [] => 0
  | t, i :: path =>
    (charsAll (t.children.take i)).length + (t.children[i]?).elim 0 fun u => u.offset path

/-- The path leads to a node with this name and passes no other one on the way. -/
structure Outermost (t : ParseTree) (name : String) (path : List Nat) : Prop where
  bears : ∃ u, t.descend? path = some u ∧ u.bears name = true
  above : ∀ front, front <+: path → front ≠ path →
    ∀ u, t.descend? front = some u → u.bears name = false

theorem descend?_cons {i : Nat} : t.descend? (i :: path) = some u ↔
    ∃ v, t.children[i]? = some v ∧ v.descend? path = some u :=
  Option.bind_eq_some_iff

theorem offset_cons {i : Nat} (h : t.children[i]? = some u) :
    t.offset (i :: path) = (charsAll (t.children.take i)).length + u.offset path := by
  rw [offset, h, Option.elim_some]

theorem outermost_nil : t.Outermost name [] ↔ t.bears name = true := by
  constructor
  · rintro ⟨⟨u, hu, hbears⟩, -⟩
    rwa [Option.some.inj hu]
  · exact fun h => ⟨⟨t, rfl, h⟩, fun front hfront hne => absurd (List.prefix_nil.1 hfront) hne⟩

theorem outermost_cons {i : Nat} : t.Outermost name (i :: path) ↔
    t.bears name = false ∧ ∃ u, t.children[i]? = some u ∧ u.Outermost name path := by
  constructor
  · rintro ⟨⟨u, hu, hbears⟩, habove⟩
    obtain ⟨v, hv, hu⟩ := descend?_cons.1 hu
    refine ⟨habove [] List.nil_prefix (List.cons_ne_nil i path).symm t rfl, v, hv, ⟨u, hu, hbears⟩, ?_⟩
    intro front hfront hne w hw
    exact habove (i :: front) (List.cons_prefix_cons.2 ⟨rfl, hfront⟩)
      (fun h => hne (List.cons.inj h).2) w (descend?_cons.2 ⟨v, hv, hw⟩)
  · rintro ⟨hother, v, hv, ⟨u, hu, hbears⟩, habove⟩
    refine ⟨⟨u, descend?_cons.2 ⟨v, hv, hu⟩, hbears⟩, fun front hfront hne w hw => ?_⟩
    rcases List.prefix_cons_iff.1 hfront with rfl | ⟨front, rfl, hrest⟩
    · rwa [← Option.some.inj hw]
    · obtain ⟨v', hv', hw⟩ := descend?_cons.1 hw
      obtain rfl := Option.some.inj (hv.symm.trans hv')
      exact habove front hrest (fun h => hne (congrArg _ h)) w hw

/-! ### The paths to what is found -/

mutual

/-- The paths to the outermost nodes with a name, in tree order. -/
def pathsTo (name : String) : ParseTree → List (List Nat)
  | leaf _ => []
  | node title children =>
    if (node title children).bears name then [[]] else pathsToAll name 0 children

/-- The same for children, the first of which has this number. -/
def pathsToAll (name : String) (i : Nat) : List ParseTree → List (List Nat)
  | [] => []
  | t :: ts => (t.pathsTo name).map (i :: ·) ++ pathsToAll name (i + 1) ts

end

theorem pathsTo_bears (h : t.bears name = true) : t.pathsTo name = [[]] := by
  cases t with
  | leaf c => cases h
  | node title children => rw [pathsTo, if_pos h]

theorem pathsTo_passes (h : t.bears name = false) : t.pathsTo name = pathsToAll name 0 t.children := by
  cases t with
  | leaf c => rfl
  | node title children =>
    rw [pathsTo, h]
    rfl

theorem mem_pathsToAll {i : Nat} {ts : List ParseTree} : path ∈ pathsToAll name i ts ↔
    ∃ k u rest, ts[k]? = some u ∧ path = (i + k) :: rest ∧ rest ∈ u.pathsTo name := by
  induction ts generalizing i with
  | nil => simp [pathsToAll]
  | cons t ts ih =>
    rw [pathsToAll, List.mem_append, List.mem_map, ih]
    constructor
    · rintro (⟨rest, hrest, rfl⟩ | ⟨k, u, rest, hu, rfl, hrest⟩)
      · exact ⟨0, t, rest, rfl, rfl, hrest⟩
      · exact ⟨k + 1, u, rest, hu, by rw [Nat.add_right_comm, Nat.add_assoc], hrest⟩
    · rintro ⟨k, u, rest, hu, rfl, hrest⟩
      cases k with
      | zero =>
        obtain rfl := Option.some.inj hu
        exact .inl ⟨rest, hrest, rfl⟩
      | succ k => exact .inr ⟨k, u, rest, hu, by rw [Nat.add_right_comm, Nat.add_assoc], hrest⟩

theorem mem_pathsTo : path ∈ t.pathsTo name ↔ t.Outermost name path := by
  induction path generalizing t with
  | nil =>
    rw [outermost_nil]
    cases h : t.bears name with
    | true => simp [pathsTo_bears h]
    | false => simp [pathsTo_passes h, mem_pathsToAll]
  | cons i path ih =>
    rw [outermost_cons]
    cases h : t.bears name with
    | true => simp [pathsTo_bears h]
    | false => simp [pathsTo_passes h, mem_pathsToAll, ih]

mutual

theorem pairwise_pathsTo (name : String) (t : ParseTree) : (t.pathsTo name).Pairwise (· < ·) := by
  cases t with
  | leaf c => exact .nil
  | node title children =>
    rw [pathsTo]
    split
    · exact List.pairwise_singleton _ _
    · exact pairwise_pathsToAll name 0 children

theorem pairwise_pathsToAll (name : String) (i : Nat) (ts : List ParseTree) :
    (pathsToAll name i ts).Pairwise (· < ·) := by
  cases ts with
  | nil => exact .nil
  | cons t ts =>
    rw [pathsToAll, List.pairwise_append, List.pairwise_map]
    refine ⟨(pairwise_pathsTo name t).imp fun h => List.cons_lt_cons_iff.2 (.inr ⟨rfl, h⟩),
      pairwise_pathsToAll name (i + 1) ts, fun p hp q hq => ?_⟩
    obtain ⟨p, -, rfl⟩ := List.mem_map.1 hp
    obtain ⟨k, u, q, -, rfl, -⟩ := mem_pathsToAll.1 hq
    exact List.cons_lt_cons_iff.2 (.inl (by omega))

end

mutual

/-- The paths lead to what is found. -/
theorem map_descend?_pathsTo (name : String) (t : ParseTree) :
    (t.pathsTo name).map t.descend? = (t.findAll name).map some := by
  cases h : t.bears name with
  | true =>
    rw [pathsTo_bears h, findAll_bears h]
    rfl
  | false =>
    rw [findAll_passes h]
    cases t with
    | leaf c => rfl
    | node title children =>
      rw [pathsTo_passes h]
      exact map_descend?_pathsToAll name title [] children

theorem map_descend?_pathsToAll (name title : String) (before ts : List ParseTree) :
    (pathsToAll name before.length ts).map (node title (before ++ ts)).descend? =
      (ts.flatMap (·.findAll name)).map some := by
  cases ts with
  | nil => rfl
  | cons t ts =>
    have hfirst : (node title (before ++ t :: ts)).descend? ∘ (before.length :: ·) = t.descend? := by
      funext path
      have hchild : (before ++ t :: ts)[before.length]? = some t := by simp
      rw [Function.comp_apply, descend?, children, hchild, Option.bind_some]
    have hrest := map_descend?_pathsToAll name title (before ++ [t]) ts
    rw [List.length_append, List.length_singleton, List.append_assoc, List.singleton_append] at hrest
    rw [pathsToAll, List.map_append, List.map_map, hfirst, hrest, map_descend?_pathsTo name t,
      List.flatMap_cons, List.map_append]

end

/-! ### Stretches of the text -/

theorem length_charsAll_mono {ts us : List ParseTree} (h : ts <+: us) :
    (charsAll ts).length ≤ (charsAll us).length := by
  obtain ⟨vs, rfl⟩ := h
  rw [charsAll_append, List.length_append]
  exact Nat.le_add_right _ _

theorem length_charsAll_take_succ {ts : List ParseTree} {i : Nat} (h : ts[i]? = some t) :
    (charsAll (ts.take (i + 1))).length = (charsAll (ts.take i)).length + t.chars.length := by
  rw [List.take_add_one, h, charsAll_append, List.length_append]
  simp [charsAll]

theorem charsAll_split {ts : List ParseTree} {i : Nat} (h : ts[i]? = some t) :
    charsAll ts = charsAll (ts.take i) ++ t.chars ++ charsAll (ts.drop (i + 1)) := by
  obtain ⟨hi, rfl⟩ := List.getElem?_eq_some_iff.1 h
  conv_lhs => rw [← List.take_append_drop i ts, List.drop_eq_getElem_cons hi]
  rw [charsAll_append, charsAll, List.append_assoc]

/-- The text of a tree stands at its place. -/
theorem exists_around_of_descend? (h : t.descend? path = some u) :
    ∃ front back, t.chars = front ++ u.chars ++ back ∧ front.length = t.offset path := by
  induction path generalizing t with
  | nil =>
    obtain rfl := Option.some.inj h
    exact ⟨[], [], by rw [List.nil_append, List.append_nil], rfl⟩
  | cons i path ih =>
    obtain ⟨v, hv, hu⟩ := descend?_cons.1 h
    obtain ⟨front, back, hchars, hfront⟩ := ih hu
    cases t with
    | leaf c => cases hv
    | node title ts =>
      refine ⟨charsAll (ts.take i) ++ front, back ++ charsAll (ts.drop (i + 1)), ?_, ?_⟩
      · have hchild : ts[i]? = some v := hv
        rw [chars, charsAll_split hchild, hchars]
        simp only [List.append_assoc]
      · rw [offset_cons hv, List.length_append, hfront]
        rfl

theorem offset_add_le (h : t.descend? path = some u) :
    t.offset path + u.chars.length ≤ t.chars.length := by
  obtain ⟨front, back, hchars, hfront⟩ := exists_around_of_descend? h
  rw [hchars, List.length_append, List.length_append, hfront]
  exact Nat.le_add_right _ _

/-- A tree ends before one that comes later and is not below it. -/
theorem offset_add_le_offset {p q : List Nat} (hp : t.descend? p = some u)
    (hq : t.descend? q = some v) (hlt : p < q) (hbelow : ¬p <+: q) :
    t.offset p + u.chars.length ≤ t.offset q := by
  induction p generalizing t q with
  | nil => exact absurd List.nil_prefix hbelow
  | cons i p ih =>
    cases q with
    | nil => exact absurd hlt (List.not_lt_nil _)
    | cons j q =>
      obtain ⟨a, ha, hp⟩ := descend?_cons.1 hp
      obtain ⟨b, hb, hq⟩ := descend?_cons.1 hq
      rw [offset_cons ha, offset_cons hb, Nat.add_assoc]
      rcases List.cons_lt_cons_iff.1 hlt with hij | ⟨rfl, hrest⟩
      · have hends := offset_add_le hp
        have hnext := length_charsAll_take_succ ha
        have hmono := length_charsAll_mono
          (List.take_prefix_take_left (l := t.children) (Nat.succ_le_of_lt hij))
        rw [Nat.succ_eq_add_one] at hmono
        omega
      · obtain rfl := Option.some.inj (ha.symm.trans hb)
        exact Nat.add_le_add_left
          (ih hp hq hrest fun h => hbelow (List.cons_prefix_cons.2 ⟨rfl, h⟩)) _

/-! ### Both queries -/

/-- No outermost node is below another one. -/
theorem Outermost.not_prefix {p q : List Nat} (hp : t.Outermost name p) (hq : t.Outermost name q)
    (hne : p ≠ q) : ¬p <+: q := by
  intro hprefix
  obtain ⟨u, hu, hbears⟩ := hp.bears
  rw [hq.above p hprefix hne u hu] at hbears
  cases hbears

/-- What a tree is searched for is found in tree order and once for each place: the nodes with the name
that no other one with the name is above. So their texts are stretches of the text of the tree that come
one after the other. The first of them is what the search for a single node finds, and that finds none
only if there are none. -/
theorem queries_agree (t : ParseTree) (name : String) :
    ∃ paths : List (List Nat),
      paths.Pairwise (· < ·) ∧ (∀ path, path ∈ paths ↔ t.Outermost name path) ∧
      paths.map t.descend? = (t.findAll name).map some ∧
      (∀ path ∈ paths, ∀ u, t.descend? path = some u →
        (t.text.toList.drop (t.offset path)).take u.text.length = u.text.toList) ∧
      paths.Pairwise (fun p q => ∀ u, t.descend? p = some u →
        t.offset p + u.text.length ≤ t.offset q) ∧
      t.findFirst name = (t.findAll name).head? ∧
      (t.findFirst name = none ↔ t.findAll name = []) := by
  have hordered := pairwise_pathsTo name t
  refine ⟨t.pathsTo name, hordered, fun path => mem_pathsTo, map_descend?_pathsTo name t, ?_, ?_,
    findFirst_eq_head? t name, by rw [findFirst_eq_head?, List.head?_eq_none_iff]⟩
  · intro path _ u hu
    obtain ⟨front, back, hchars, hfront⟩ := exists_around_of_descend? hu
    rw [text_eq, text_eq, String.toList_ofList, String.toList_ofList, String.length_ofList, hchars,
      ← hfront, List.append_assoc, List.drop_left, List.take_left]
  · refine hordered.imp_of_mem fun {p q} hp hq hlt u hu => ?_
    have hp := mem_pathsTo.1 hp
    have hq := mem_pathsTo.1 hq
    obtain ⟨v, hv, -⟩ := hq.bears
    have hne : p ≠ q := by
      rintro rfl
      exact List.lt_irrefl p hlt
    rw [text_eq, String.length_ofList]
    exact offset_add_le_offset hu hv hlt (hp.not_prefix hq hne)

end PatternText.ParseTree
