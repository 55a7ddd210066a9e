import ConcreteSyntax.Row

/-!
Steps and searches along a row, by the indices of the trees that they pass.
-/

namespace ConcreteSyntax

namespace Outcome

variable {First Second Place : Type}

/-- The outcome of going through some places to the first that is accepted. With none accepted it
is the last of them. -/
def seek (accept : Place → Bool) (places : List Place) : Outcome Place :=
  match places.find? accept with
  | some place => found place
  | none => (places.getLast?.map landed).getD unmoved

theorem seek_map (accept : Second → Bool) (change : First → Second) (places : List First) :
    seek accept (places.map change) =
      (seek (fun place => accept (change place)) places).map change := by
  rw [seek, seek, List.find?_map, List.getLast?_map]
  change (match (places.find? fun place => accept (change place)).map change with
    | some place => found place
    | none => _) = _
  cases places.find? fun place => accept (change place) with
  | some place => rfl
  | none => cases places.getLast? <;> rfl

theorem seek_cons (accept : Place → Bool) (first : Place) (rest : List Place) :
    seek accept (first :: rest) =
      if accept first then found first
      else
        match seek accept rest with
        | unmoved => landed first
        | outcome => outcome := by
  rw [seek, seek, List.find?_cons, List.getLast?_cons]
  by_cases accepted : accept first
  · simp [accepted]
  · simp only [accepted, Bool.false_eq_true, ↓reduceIte]
    cases rest.find? accept with
    | some place => rfl
    | none => cases rest.getLast? <;> rfl

theorem seek_eq_found_iff {accept : Place → Bool} {places : List Place} {place : Place} :
    seek accept places = found place ↔
      accept place ∧ ∃ passed rest, places = passed ++ place :: rest ∧
        ∀ other ∈ passed, accept other = false := by
  have first : seek accept places = found place ↔ places.find? accept = some place := by
    rw [seek]
    cases places.find? accept with
    | some other => simp
    | none => cases places.getLast? <;> simp
  simpa [first] using List.find?_eq_some_iff_append

theorem seek_eq_landed_iff {accept : Place → Bool} {places : List Place} {place : Place} :
    seek accept places = landed place ↔
      (∀ other ∈ places, accept other = false) ∧ ∃ passed, places = passed ++ [place] := by
  have last : seek accept places = landed place ↔
      places.find? accept = none ∧ places.getLast? = some place := by
    rw [seek]
    cases places.find? accept with
    | some other => simp
    | none => cases places.getLast? <;> simp
  simpa [last] using fun _ => List.getLast?_eq_some_iff

theorem seek_eq_unmoved_iff {accept : Place → Bool} {places : List Place} :
    seek accept places = unmoved ↔ places = [] := by
  rw [← List.getLast?_eq_none_iff, seek]
  cases found : places.find? accept with
  | some other =>
      have filled := List.ne_nil_of_mem (List.mem_of_find?_eq_some found)
      simpa using filled
  | none => cases places.getLast? <;> simp

theorem seek_true (places : List Place) :
    seek (fun _ => true) places = ofOption places.head? := by
  cases places <;> rfl

theorem map_map {Third : Type} (outcome : Outcome First) (change : First → Second)
    (again : Second → Third) :
    (outcome.map change).map again = outcome.map fun place => again (change place) := by
  cases outcome <;> rfl

theorem map_ofOption (place : Option First) (change : First → Second) :
    (ofOption place).map change = ofOption (place.map change) := by
  cases place <;> rfl

def moved? : Outcome Place → Option Place
  | found place => some place
  | landed place => some place
  | unmoved => none

theorem moved?_map (outcome : Outcome First) (change : First → Second) :
    (outcome.map change).moved? = outcome.moved?.map change := by
  cases outcome <;> rfl

@[simp] theorem moved?_ofOption (place : Option Place) : (ofOption place).moved? = place := by
  cases place <;> rfl

theorem place_eq (outcome : Outcome Place) (start : Place) :
    outcome.place start = outcome.moved?.getD start := by
  cases outcome <;> rfl

theorem split_of_moved?_seek {accept : Place → Bool} {places : List Place}
    {place : Place} (moved : (seek accept places).moved? = some place) :
    ∃ passed rest, places = passed ++ place :: rest ∧ ∀ other ∈ passed, accept other = false := by
  cases sought : seek accept places with
  | found other =>
      obtain ⟨_, passed, rest, split, refused⟩ := seek_eq_found_iff.mp sought
      rw [sought] at moved
      rw [← Option.some_inj.mp moved]
      exact ⟨passed, rest, split, refused⟩
  | landed other =>
      obtain ⟨refused, passed, split⟩ := seek_eq_landed_iff.mp sought
      rw [sought] at moved
      rw [← Option.some_inj.mp moved]
      refine ⟨passed, [], split, ?_⟩
      intro earlier member
      apply refused
      simp [split, member]
  | unmoved =>
      rw [sought] at moved
      contradiction

theorem mem_of_moved?_seek {accept : Place → Bool} {places : List Place}
    {place : Place} (moved : (seek accept places).moved? = some place) : place ∈ places := by
  obtain ⟨passed, rest, split, _⟩ := split_of_moved?_seek moved
  simp [split]

end Outcome

def route (count : Nat) : Direction → List (Fin count)
  | .forward => List.finRange count
  | .backward => (List.finRange count).reverse

def routeFrom {count : Nat} (index : Fin count) : Direction → List (Fin count)
  | .forward => (List.finRange count).drop (index + 1)
  | .backward => ((List.finRange count).take index).reverse

theorem route_zero (direction : Direction) : route 0 direction = [] := by
  cases direction <;> rfl

theorem route_eq_cons {count : Nat} (filled : 0 < count) (direction : Direction) :
    ∃ first : Fin count, route count direction = first :: routeFrom first direction ∧
      (first : Nat) = match direction with
        | .forward => 0
        | .backward => count - 1 := by
  cases direction with
  | forward =>
      refine ⟨⟨0, filled⟩, ?_, rfl⟩
      have split := List.drop_eq_getElem_cons (l := List.finRange count) (i := 0) (by simpa)
      simpa [route, routeFrom] using split
  | backward =>
      refine ⟨⟨count - 1, by omega⟩, ?_, rfl⟩
      have bound : count - 1 < (List.finRange count).length := by
        rw [List.length_finRange]
        omega
      have split := List.take_succ_eq_append_getElem bound
      rw [Nat.sub_add_cancel filled, List.take_of_length_le (by simp)] at split
      rw [route, split, List.reverse_append, List.getElem_finRange]
      rfl

theorem finRange_split {count : Nat} {index : Fin count} {before after : List (Fin count)}
    (split : List.finRange count = before ++ index :: after) :
    (index : Nat) = before.length := by
  have here : (List.finRange count)[before.length]? = some index := by simp [split]
  obtain ⟨bound, same⟩ := List.getElem?_eq_some_iff.mp here
  rw [List.getElem_finRange] at same
  rw [← same]
  rfl

theorem routeFrom_of_split {count : Nat} {direction : Direction} {index : Fin count}
    {passed rest : List (Fin count)} (split : route count direction = passed ++ index :: rest) :
    routeFrom index direction = rest := by
  cases direction with
  | forward =>
      rw [route] at split
      rw [routeFrom, finRange_split split, split]
      simp
  | backward =>
      have turned : List.finRange count = rest.reverse ++ index :: passed.reverse := by
        rw [← List.reverse_reverse (List.finRange count)]
        rw [route] at split
        simp [split]
      rw [routeFrom, finRange_split turned, turned]
      simp

theorem route_split {count : Nat} (index : Fin count) (direction : Direction) :
    ∃ passed, route count direction = passed ++ index :: routeFrom index direction := by
  have member : index ∈ route count direction := by
    cases direction <;> simp [route]
  obtain ⟨passed, rest, split⟩ := List.append_of_mem member
  exact ⟨passed, by rw [routeFrom_of_split split, split]⟩

theorem routeFrom_of_routeFrom_split {count : Nat} {direction : Direction} {start index : Fin count}
    {passed rest : List (Fin count)}
    (split : routeFrom start direction = passed ++ index :: rest) :
    routeFrom index direction = rest := by
  obtain ⟨before, whole⟩ := route_split start direction
  have longer : route count direction = (before ++ start :: passed) ++ index :: rest := by
    rw [whole, split]
    simp
  exact routeFrom_of_split longer

def Direction.Past {count : Nat} : Direction → Fin count → Fin count → Prop
  | .forward, start, index => start < index
  | .backward, start, index => index < start

theorem Direction.Past.asymm {count : Nat} {direction : Direction} {start index : Fin count}
    (past : direction.Past start index) : ¬direction.Past index start := by
  cases direction with
  | forward => exact Nat.lt_asymm past
  | backward => exact Nat.lt_asymm past

/-! The children along a route. -/

theorem pairwise_route (count : Nat) (direction : Direction) :
    (route count direction).Pairwise direction.Past := by
  cases direction with
  | forward => exact List.pairwise_lt_finRange count
  | backward => exact List.pairwise_reverse.mpr (List.pairwise_lt_finRange count)

theorem mem_route {count : Nat} (index : Fin count) (direction : Direction) :
    index ∈ route count direction := by
  cases direction <;> simp [route]

theorem pairwise_routeFrom {count : Nat} (start : Fin count) (direction : Direction) :
    (start :: routeFrom start direction).Pairwise direction.Past := by
  obtain ⟨passed, split⟩ := route_split start direction
  have sorted := pairwise_route count direction
  rw [split, List.pairwise_append] at sorted
  exact sorted.2.1

theorem mem_routeFrom {count : Nat} (start index : Fin count) (direction : Direction) :
    index ∈ routeFrom start direction ↔ direction.Past start index := by
  constructor
  · intro member
    exact List.rel_of_pairwise_cons (pairwise_routeFrom start direction) member
  · intro past
    obtain ⟨passed, split⟩ := route_split start direction
    have sorted := pairwise_route count direction
    rw [split, List.pairwise_append] at sorted
    have member := mem_route index direction
    rw [split, List.mem_append, List.mem_cons] at member
    rcases member with before | same | after
    · exact absurd (sorted.2.2 index before start List.mem_cons_self) past.asymm
    · subst same
      exact absurd past past.asymm
    · exact after

namespace Row

def ofIndex (trees : List Tree) (index : Fin trees.length) : Row :=
  ⟨(trees.take index).reverse, trees[index], trees.drop (index + 1)⟩

@[simp] theorem trees_ofIndex (siblings : List Tree) (index : Fin siblings.length) :
    (ofIndex siblings index).trees = siblings := by
  simp only [trees, ofIndex, List.reverse_reverse]
  rw [Fin.getElem_fin, ← List.drop_eq_getElem_cons index.isLt, List.take_append_drop]

@[simp] theorem index_ofIndex (siblings : List Tree) (position : Fin siblings.length) :
    (ofIndex siblings position).index = position := by
  simp only [index, ofIndex, List.length_reverse, List.length_take]
  omega

theorem eq_ofIndex {row : Row} {siblings : List Tree} {index : Fin siblings.length}
    (same : row.trees = siblings) (placed : row.index = index) : row = ofIndex siblings index := by
  obtain ⟨before, here, after⟩ := row
  obtain ⟨position, bound⟩ := index
  subst same
  simp only [index] at placed
  subst placed
  simp [ofIndex, trees, List.drop_append]

@[simp] theorem trees_turned (row : Row) : row.turned.trees = row.trees.reverse := by
  simp [trees, turned]

theorem index_turned (row : Row) : row.turned.index + row.index + 1 = row.trees.length := by
  simp only [index, turned, trees, List.length_append, List.length_reverse,
    List.length_cons]
  omega

/-! Walks forward. -/

/-- The places that steps forward lead to from a tree with `after` ahead of it. -/
def ahead (before : List Tree) (here : Tree) : List Tree → List Row
  | [] => []
  | next :: rest => ⟨here :: before, next, rest⟩ :: ahead (here :: before) next rest

def following (row : Row) : List Row :=
  ahead row.before row.here row.after

theorem length_ahead (before : List Tree) (here : Tree) (after : List Tree) :
    (ahead before here after).length = after.length := by
  induction after generalizing before here with
  | nil => rfl
  | cons next rest ih => simp [ahead, ih]

theorem length_following (row : Row) :
    row.following.length + row.index + 1 = row.trees.length := by
  rw [following, length_ahead]
  simp only [index, trees, List.length_append, List.length_reverse, List.length_cons]
  omega

theorem trees_ahead (before : List Tree) (here : Tree) (after : List Tree) :
    ∀ row ∈ ahead before here after, row.trees = before.reverse ++ here :: after := by
  induction after generalizing before here with
  | nil => simp [ahead]
  | cons next rest ih =>
      intro row member
      rcases List.mem_cons.mp member with same | later
      · subst same
        simp [trees]
      · rw [ih (here :: before) next row later]
        simp

theorem trees_following {row other : Row} (member : other ∈ row.following) :
    other.trees = row.trees :=
  trees_ahead _ _ _ other member

theorem index_ahead (before : List Tree) (here : Tree) (after : List Tree) (steps : Nat)
    (bound : steps < (ahead before here after).length) :
    (ahead before here after)[steps].index = before.length + 1 + steps := by
  induction after generalizing before here steps with
  | nil => simp [ahead] at bound
  | cons next rest ih =>
      cases steps with
      | zero => simp [ahead, index]
      | succ steps =>
          simp only [ahead, List.getElem_cons_succ]
          rw [ih]
          simp only [List.length_cons]
          omega

theorem index_following (row : Row) (steps : Nat) (bound : steps < row.following.length) :
    row.following[steps].index = row.index + 1 + steps :=
  index_ahead _ _ _ steps bound

theorem next?_eq (row : Row) : row.next? = row.following.head? := by
  obtain ⟨before, here, after⟩ := row
  cases after <;> rfl

theorem seekFrom_eq (reached : Outcome Row) (before : List Tree) (here : Tree)
    (after : List Tree) :
    seekFrom reached before here after =
      match (ahead before here after).find? (·.here.isNamed) with
      | some row => .found row
      | none => ((ahead before here after).getLast?.map .landed).getD reached := by
  induction after generalizing reached before here with
  | nil => rfl
  | cons next rest ih =>
      rw [seekFrom, ahead, List.find?_cons]
      by_cases named : next.isNamed
      · simp [named]
      · simp only [named, Bool.false_eq_true, ↓reduceIte]
        rw [ih, List.getLast?_cons]
        cases (ahead (here :: before) next rest).getLast? <;> rfl

theorem nextNamed_eq (row : Row) :
    row.nextNamed = Outcome.seek (·.here.isNamed) row.following := by
  rw [nextNamed, seekFrom_eq, Outcome.seek, following]
  cases (ahead row.before row.here row.after).find? (·.here.isNamed) <;> rfl

/-! Walks in both directions. -/

section

variable {siblings : List Tree} (index : Fin siblings.length)

theorem following_ofIndex :
    (ofIndex siblings index).following =
      (routeFrom index .forward).map (ofIndex siblings) := by
  have length := (ofIndex siblings index).length_following
  rw [trees_ofIndex, index_ofIndex] at length
  apply List.ext_getElem
  · simp only [routeFrom, List.length_map, List.length_drop, List.length_finRange]
    omega
  · intro steps bound _
    rw [List.getElem_map]
    apply eq_ofIndex
    · rw [trees_following (List.getElem_mem bound), trees_ofIndex]
    · rw [index_following, index_ofIndex]
      simp [routeFrom]

theorem following_turned_ofIndex :
    (ofIndex siblings index).turned.following.map turned =
      (routeFrom index .backward).map (ofIndex siblings) := by
  have length := (ofIndex siblings index).turned.length_following
  have here := index_turned (ofIndex siblings index)
  rw [trees_ofIndex, index_ofIndex] at here
  rw [trees_turned, trees_ofIndex, List.length_reverse] at length
  apply List.ext_getElem
  · simp only [routeFrom, List.length_map, List.length_reverse, List.length_take,
      List.length_finRange]
    omega
  · intro steps bound _
    rw [List.length_map] at bound
    rw [List.getElem_map, List.getElem_map]
    have whole := trees_following (List.getElem_mem bound)
    rw [trees_turned, trees_ofIndex] at whole
    apply eq_ofIndex
    · rw [trees_turned, whole, List.reverse_reverse]
    · have back := index_turned (ofIndex siblings index).turned.following[steps]
      rw [whole, index_following, List.length_reverse] at back
      simp only [routeFrom, List.getElem_reverse, List.getElem_take, List.getElem_finRange,
        List.length_take, List.length_finRange, Fin.val_cast]
      omega

theorem step?_ofIndex (direction : Direction) :
    (ofIndex siblings index).step? direction =
      ((routeFrom index direction).map (ofIndex siblings)).head? := by
  cases direction with
  | forward => rw [step?, next?_eq, following_ofIndex]
  | backward => rw [step?, next?_eq, ← List.head?_map, following_turned_ofIndex]

theorem seekNamed_ofIndex (direction : Direction) :
    (ofIndex siblings index).seekNamed direction =
      Outcome.seek (·.here.isNamed) ((routeFrom index direction).map (ofIndex siblings)) := by
  cases direction with
  | forward => rw [seekNamed, nextNamed_eq, following_ofIndex]
  | backward =>
      rw [seekNamed, nextNamed_eq, ← following_turned_ofIndex, Outcome.seek_map]
      rfl

end

theorem start?_eq_some {siblings : List Tree} (direction : Direction)
    (index : Fin siblings.length)
    (first : (index : Nat) = match direction with
      | .forward => 0
      | .backward => siblings.length - 1) :
    start? siblings direction = some (ofIndex siblings index) := by
  cases direction with
  | forward =>
      cases siblings with
      | nil => exact index.elim0
      | cons tree rest =>
          rw [start?, Option.some_inj]
          apply eq_ofIndex
          · simp [trees]
          · simp [Row.index, first]
  | backward =>
      simp only at first
      cases turned : siblings.reverse with
      | nil =>
          have empty : siblings.length = 0 := by simpa using congrArg List.length turned
          have bound := index.isLt
          omega
      | cons last others =>
          have length := congrArg List.length turned
          have back := congrArg List.reverse turned
          simp only [List.length_reverse, List.length_cons] at length
          rw [List.reverse_reverse] at back
          simp only [start?, turned, Option.some_inj]
          apply eq_ofIndex
          · simpa [trees] using back.symm
          · simp only [Row.index]
            omega

theorem start?_nil (direction : Direction) : start? [] direction = none := by
  cases direction <;> rfl

theorem start?_eq (siblings : List Tree) (direction : Direction) :
    start? siblings direction =
      ((route siblings.length direction).map (ofIndex siblings)).head? := by
  rcases Nat.eq_zero_or_pos siblings.length with empty | filled
  · have nothing := List.length_eq_zero_iff.mp empty
    subst nothing
    have nowhere : route ([] : List Tree).length direction = [] := route_zero direction
    rw [nowhere, start?_nil]
    rfl
  · obtain ⟨first, split, placed⟩ := route_eq_cons filled direction
    rw [split, start?_eq_some direction first placed]
    rfl

theorem startNamed_eq (siblings : List Tree) (direction : Direction) :
    startNamed siblings direction =
      Outcome.seek (·.here.isNamed)
        ((route siblings.length direction).map (ofIndex siblings)) := by
  rw [startNamed, start?_eq]
  cases ahead : route siblings.length direction with
  | nil => rfl
  | cons first rest =>
      have filled : 0 < siblings.length := first.pos
      obtain ⟨start, split, _⟩ := route_eq_cons filled direction
      rw [split] at ahead
      injection ahead with same rest
      subst same rest
      simp only [List.map_cons, List.head?_cons, Outcome.seek_cons, ← seekNamed_ofIndex]
      cases (ofIndex siblings start).seekNamed direction <;> rfl

end Row

end ConcreteSyntax
