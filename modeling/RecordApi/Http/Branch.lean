import RecordApi.Http.Route

/-!
# Finding the route of a path

All patterns are followed at once along a path. They run together up to the point where they part
or one of them ends; there those that have a character of their own go before the parameter. Where
those lead nowhere, the parameter passed over last is tried. A path that lacks the slash at the end
of a route, or has one too many, is taken by no route at all: it is refused at the point where that
is seen, before any parameter is tried.
-/

namespace RecordApi

/-- The patterns that go on from a point of a path, each with what it leads to. -/
abbrev Branch (α : Type) := List (RoutePattern × α)

/-- How a search ends: at a route with what its parameters took, at a point from which another
parameter may be tried, or for good. -/
inductive Found (α : Type) where
  | route (target : α) (values : List (List Char))
  | missed
  | refused

/-- A search in which a parameter took a value before. -/
def Found.after {α : Type} (value : List Char) : Found α → Found α
  | .route target values => .route target (value :: values)
  | .missed => .missed
  | .refused => .refused

/-- What comes next at a point where patterns part: the search ends, or goes on along some of
them. -/
inductive RouteStep (α : Type) where
  | stop (found : Found α)
  | enter (next : Branch α)

namespace Branch

variable {α : Type}

/-- What the pattern that ends here leads to. -/
def target? (b : Branch α) : Option α :=
  b.findSome? fun p => if p.1.isEmpty then some p.2 else none

/-- The patterns that go on with a character, which is still in front of them. -/
def startingWith (c : Char) (b : Branch α) : Branch α :=
  b.filter fun p => p.1.head? == some (.char c)

/-- The patterns that go on with a parameter up to the next slash, from behind it. -/
def behindParam (b : Branch α) : Branch α :=
  b.filterMap fun p => match p.1 with
    | .param _ :: pattern => some (pattern, p.2)
    | _ => none

/-- What the pattern leads to that goes on with a parameter for all that is left. -/
def catchAll? (b : Branch α) : Option α :=
  b.findSome? fun p => match p.1 with
    | .rest _ :: _ => some p.2
    | _ => none

/-- The patterns that do not end here. -/
def ongoing (b : Branch α) : Branch α :=
  b.filter fun p => !p.1.isEmpty

/-- The characters that stand for themselves at the start of a pattern. -/
def stretchOf : RoutePattern → List Char
  | .char c :: pattern => c :: stretchOf pattern
  | _ => []

/-- The characters that two texts have in common at their start. -/
def common : List Char → List Char → List Char
  | c :: s, d :: t => if c = d then c :: common s t else []
  | _, _ => []

/-- The characters that all patterns have in common at their start. -/
def stretch : Branch α → List Char
  | [] => []
  | p :: b => b.foldl (fun s q => common s (stretchOf q.1)) (stretchOf p.1)

/-- The patterns from behind their first `n` parts. -/
def drop (n : Nat) (b : Branch α) : Branch α :=
  b.map fun p => (p.1.drop n, p.2)

/-- Whether the patterns run together over a single slash, behind which one of them ends. -/
def isSlash (b : Branch α) : Bool :=
  b.stretch == ['/'] && (b.drop 1).target?.isSome

/-- How a search ends that knows no way on along a path. A slash that is left over is one too many
for any route. -/
def deadEnd (left : List Char) : Found α :=
  if left = ['/'] then .refused else .missed

/-- The way on along the patterns that have the next character of their own. -/
def literalStep (b : Branch α) (c : Char) (more : List Char) : RouteStep α :=
  let literal := b.startingWith c
  if literal.isEmpty then
    .stop (if b.behindParam.isEmpty && b.catchAll?.isNone then deadEnd (c :: more) else .missed)
  else if c :: more = ['/'] && literal.stretch != ['/'] && b.target?.isSome then .stop .refused
  else .enter literal

/-- The way on behind the parameter that takes the next characters. -/
def paramStep (b : Branch α) (left : List Char) : RouteStep α :=
  let value := RoutePattern.nameOf left
  let rest := RoutePattern.behindName left
  let behind := b.behindParam
  match b.catchAll? with
  | some target => .stop (.route target [left])
  | none =>
    if behind.isEmpty then .stop .missed
    else if rest = [] then
      match behind.target? with
      | some target => .stop (.route target [value])
      | none => .stop (if behind.isSlash then .refused else .missed)
    else if value = [] then .stop .missed
    else if behind.ongoing.isEmpty then .stop (deadEnd rest)
    else if rest = ['/'] && behind.ongoing.stretch != ['/'] && behind.target?.isSome then
      .stop .refused
    else .enter behind.ongoing

theorem length_lt_of_drop_eq_cons {k : Nat} {path more : List Char} {c : Char} (hk : k ≠ 0)
    (h : path.drop k = c :: more) : (c :: more).length < path.length := by
  have hlen := congrArg List.length h
  simp only [List.length_drop, List.length_cons] at hlen ⊢
  omega

/-- The route that a path takes from a point where the patterns run together, if there is one. -/
def find (b : Branch α) (path : List Char) : Found α :=
  let here := b.drop b.stretch.length
  if hs : b.stretch.length = 0 then .missed
  else if !b.stretch.isPrefixOf path then
    if b.stretch = path ++ ['/'] && here.target?.isSome then .refused else deadEnd path
  else
    match _ : path.drop b.stretch.length with
    | [] =>
      match here.target? with
      | some target => .route target []
      | none => deadEnd path
    | c :: more =>
      let first := match here.literalStep c more with
        | .stop found => found
        | .enter next => next.find (c :: more)
      match first with
      | .missed =>
        match here.paramStep (c :: more) with
        | .stop found => found
        | .enter next =>
          (next.find (RoutePattern.behindName (c :: more))).after (RoutePattern.nameOf (c :: more))
      | found => found
termination_by path.length
decreasing_by
  · exact length_lt_of_drop_eq_cons hs ‹_›
  · exact Nat.lt_of_le_of_lt (RoutePattern.length_behindName_le _)
      (length_lt_of_drop_eq_cons hs ‹_›)

end Branch

end RecordApi
