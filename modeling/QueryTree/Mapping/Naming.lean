import QueryTree.Text.Class

/-!
# Names of tables and columns

Rows are declared with names in camel case; tables and columns have names in snake case, and
tables the plural of them.

## Main definitions

* `Mapping.snake`: camel case to snake case, initialisms kept together
* `Mapping.plural`: the English plural of a word
* `Mapping.tableName`: the plural of the snake case name
-/

namespace QueryTree.Mapping

open CharClass

/-- The characters in snake case, after the character `before`. -/
def snakeFrom : (before : Option Char) → List Char → List Char
  | _, [] => []
  | before, c :: rest =>
    if isUpper c then
      let newWord := match before with
        | none => false
        | some b => isLower b || isDigit b || (isUpper b && rest.head?.any isLower)
      (if newWord then ['_'] else []) ++ lower c :: snakeFrom (some c) rest
    else c :: snakeFrom (some c) rest

/-- The name in snake case: an underscore before the first letter of every word. -/
def snake (t : Text) : Text := Text.ofChars (snakeFrom none t.chars)

/-- Words that are their own plural. -/
def uncountable : List Text :=
  ["equipment", "information", "rice", "money", "species", "series", "fish", "sheep", "jeans",
    "police"]

/-- Irregular endings and their plurals. -/
def irregularEndings : List (Text × Text) :=
  [("zombie", "zombies"), ("move", "moves"), ("sex", "sexes"), ("child", "children"),
    ("man", "men"), ("person", "people")]

/-- Whole words with a plural of their own. -/
def wholeWords : List (Text × Text) :=
  [("quiz", "quizzes"), ("oxen", "oxen"), ("ox", "oxen")]

/-- Consonants before a final y. -/
def consonants : Text := "bcdfghjklmnpqrstvwxz"

/-- Endings that come before the rules for y and fe. -/
def firstEndings : List (Text × Text) :=
  [("lice", "lice"), ("mice", "mice"), ("louse", "lice"), ("mouse", "mice"),
    ("index", "indices"), ("indix", "indices"), ("vertex", "vertices"), ("vertix", "vertices"),
    ("matrex", "matrices"), ("matrix", "matrices"), ("sh", "shes"), ("ss", "sses"),
    ("ch", "ches"), ("x", "xes")]

/-- A final y after a consonant. -/
def finalY : List (Text × Text) :=
  consonants.map fun b => ([b, byte 'y'], b :: ("ies" : Text))

/-- A final fe after any letter but f. -/
def finalFe : List (Text × Text) :=
  (Text.ofString "abcdeghijklmnopqrstuvwxyz").map fun b =>
    (b :: ("fe" : Text), b :: ("ves" : Text))

/-- Endings that come after the rules for y and fe. -/
def lastEndings : List (Text × Text) :=
  [("rf", "rves"), ("lf", "lves"), ("sis", "ses"), ("ia", "ia"), ("ta", "ta"), ("ium", "ia"),
    ("tum", "ta"), ("tomato", "tomatoes"), ("buffalo", "buffaloes"), ("bus", "buses"),
    ("status", "statuses"), ("alias", "aliases"), ("viri", "viri"), ("octopi", "octopi"),
    ("virus", "viri"), ("octopus", "octopi"), ("axis", "axes"), ("testis", "testes"), ("s", "s")]

/-- Endings and what replaces them in the plural, tried in order. -/
def endings : List (Text × Text) :=
  let middle : List (Text × Text) := [("quy", "quies"), ("hive", "hives")]
  firstEndings ++ finalY ++ middle ++ finalFe ++ lastEndings

/-- The word with the first matching ending replaced. -/
def replaceEnding? (t : Text) (table : List (Text × Text)) : Option Text :=
  (table.find? fun (ending, _) => t.hasSuffix ending).map fun (ending, new) =>
    t.take (t.length - ending.length) ++ new

/-- The plural of a word. -/
def plural (t : Text) : Text :=
  let last := Text.afterLast (· == 32) t
  let irregular := irregularEndings.flatMap fun (s, p) => [(s, p), (p, p)]
  if t.isEmpty || uncountable.contains last.toLower then t
  else match replaceEnding? t irregular with
    | some p => p
    | none =>
      match wholeWords.lookup t with
      | some p => p
      | none => (replaceEnding? t endings).getD (t ++ "s")

/-- The table of a declared name. -/
def tableName (name : Text) : Text := plural (snake name)

end QueryTree.Mapping
