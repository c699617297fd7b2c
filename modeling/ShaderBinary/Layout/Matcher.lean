import ShaderBinary.Layout.Category

/-!
# Matching the front of a sequence of categories

A `Matcher` takes something off the front of a sequence of categories and answers in one of three
ways:

* `matched`: it has taken something, and the rest is left;
* `refused`: what it looks for does not stand there, and something else may be tried instead;
* `broken`: it had committed itself to what it found before, so that nothing else may be tried.

A repetition is greedy. It ends in front of the first refusal and is never shortened afterwards; a
break inside one round is a break of the whole repetition.
-/

namespace ShaderBinary
namespace Layout

/-- What a matcher answers. A refusal and a break hold what is left from the category on that could
not be taken. -/
inductive Match
  | matched (left : List Category)
  | refused (place : List Category)
  | broken (place : List Category)
deriving DecidableEq

/-- Takes something off the front of a sequence of categories. -/
abbrev Matcher := List Category → Match

namespace Matcher

/-- Takes one category of those that are accepted. -/
def single (accepts : Category → Bool) : Matcher
  | [] => .refused []
  | category :: later =>
    if accepts category then .matched later else .refused (category :: later)

/-- Takes one category. -/
def one (expected : Category) : Matcher :=
  single fun category => category = expected

/-- Takes what the first matcher takes and then what the second one takes. -/
def andThen (first second : Matcher) : Matcher := fun categories =>
  match first categories with
  | .matched left => second left
  | .refused place => .refused place
  | .broken place => .broken place

/-- Does not let anything else be tried if the matcher refuses. -/
def committed (matcher : Matcher) : Matcher := fun categories =>
  match matcher categories with
  | .matched left => .matched left
  | .refused place => .broken place
  | .broken place => .broken place

/-- Takes as many rounds as there are, but no more than `bound`. A round that takes anything takes a
category, so the length of the sequence is bound enough. -/
def many (matcher : Matcher) : (bound : Nat) → Matcher
  | 0, categories => .matched categories
  | bound + 1, categories =>
    match matcher categories with
    | .matched left => many matcher bound left
    | .refused _ => .matched categories
    | .broken place => .broken place

/-- Takes as many rounds as there are, and at least one. -/
def many1 (matcher : Matcher) (bound : Nat) : Matcher := fun categories =>
  match matcher categories with
  | .matched left => many matcher bound left
  | .refused _ => .refused categories
  | .broken place => .broken place

end Matcher

namespace Match

/-- What is left after a match, and `whole` if there was none. -/
def leftOr (whole : List Category) : Match → List Category
  | matched left => left
  | refused _ => whole
  | broken _ => whole

end Match

end Layout
end ShaderBinary
