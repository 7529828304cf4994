import Conditions.Text.Distance
import Conditions.Text.UpperCase
import Conditions.Token.Kind

/-!
# Suggested keywords

The keywords that a misspelt word may have meant.
-/

namespace Conditions

/-- The greatest distance at which a keyword is still suggested. -/
def suggestionReach : Nat := 2

/-- The greatest number of keywords suggested at once. -/
def suggestionLimit : Nat := 3

/-- The keywords nearest to the word in upper case, the nearest first; keywords at one distance
keep the order of the table. -/
def suggestKeywords (word : String) : List String :=
  let distance (keyword : String) : Nat := Text.editDistance (Text.upper word) keyword
  let candidates := (keywords.map Prod.fst).filter (fun k => distance k ≤ suggestionReach)
  (candidates.mergeSort (fun k l => distance k ≤ distance l)).take suggestionLimit

end Conditions
