/-
  Conditions — what `test` asks.

  **Program** — a condition of one, two or three words is a question about a text, a number or a
  file; `!` turns it round, and longer ones are joined by `-a` and `-o`, the latter binding looser.
-/
import Wheelwright.Shell.Session
import Wheelwright.Shell.Sum

namespace Wheelwright.Shell.Condition

/-- Answers, or the word that is no answer. -/
abbrev Answer := Except String Bool

/-- What lies at a path, links being followed. -/
def entryAt (s : Session) (text : String) : Option Entry :=
  ((s.tree.find? (s.path text) true).toOption).map (·.2)

/-- A question about one word. -/
def unary (s : Session) (sign word : String) : Option Answer :=
  let entry := entryAt s word
  match sign with
  | "-n" => some (.ok (word != ""))
  | "-z" => some (.ok (word = ""))
  | "-e" => some (.ok entry.isSome)
  | "-r" | "-w" =>
    some (.ok (match entry with
      | some (.file _ mode) => mode ≠ .unreadable
      | other => other.isSome))
  | "-f" => some (.ok (s.tree.isFile (s.path word)))
  | "-d" => some (.ok (s.tree.isDirectory (s.path word)))
  | "-s" =>
    some (.ok (match entry with
      | some (.file content _) => !content.isEmpty
      | other => other.isSome))
  | "-x" =>
    some (.ok (match entry with
      | some (.file _ mode) => mode = .executable
      | other => other.isSome))
  | "-h" | "-L" =>
    some (.ok (match s.tree.find? (s.path word) false with
      | .ok (_, .link _) => true
      | _ => false))
  | "-t" | "-p" | "-b" | "-c" | "-S" | "-u" | "-g" | "-k" => some (.ok false)
  | _ => none

/-- A comparison of numbers. -/
def compared (a b : String) (f : Int → Int → Bool) : Answer :=
  match Sum.number? a, Sum.number? b with
  | some m, some n => if a = "" then .error a else if b = "" then .error b else .ok (f m n)
  | none, _ => .error a
  | _, none => .error b

/-- A question about two words. -/
def binary (a sign b : String) : Option Answer :=
  match sign with
  | "=" | "==" => some (.ok (a = b))
  | "!=" => some (.ok (a != b))
  | "<" => some (.ok (a < b))
  | ">" => some (.ok (b < a))
  | "-eq" => some (compared a b fun m n => m = n)
  | "-ne" => some (compared a b fun m n => m != n)
  | "-lt" => some (compared a b fun m n => m < n)
  | "-le" => some (compared a b fun m n => m ≤ n)
  | "-gt" => some (compared a b fun m n => n < m)
  | "-ge" => some (compared a b fun m n => n ≤ m)
  | _ => none

/-- A condition without `-a` and `-o`. -/
def simple (s : Session) : List String → Answer
  | [] => .ok false
  | [a] => .ok (a != "")
  | [a, b] =>
    if a = "!" then .ok (b = "") else (unary s a b).getD (.error a)
  | [a, b, c] =>
    match binary a b c with
    | some answer => answer
    | none =>
      if a = "!" then (simple s [b, c]).map not
      else if a = "(" && c = ")" then .ok (b != "")
      else .error b
  | a :: rest => if a = "!" then (simple s rest).map not else .error (rest.headD "")

/-- The words before and after the first that is `sign`, beyond the first word. -/
def splitAt? (sign : String) (words : List String) : Option (List String × List String) :=
  let before := words.take 1 ++ words.tail.takeWhile (· != sign)
  match words.drop before.length with
  | _ :: after => some (before, after)
  | [] => none

/-- A condition, in at most so many parts. -/
def answer (s : Session) : Nat → List String → Answer
  | 0, words => simple s words
  | parts + 1, words =>
    if words.length ≤ 3 then simple s words
    else
      match splitAt? "-o" words with
      | some (a, b) => do return (← answer s parts a) || (← answer s parts b)
      | none =>
        match splitAt? "-a" words with
        | some (a, b) => do return (← answer s parts a) && (← answer s parts b)
        | none => simple s words

/-- The status of `test` with some words. -/
def run (s : Session) (words : List String) : Session :=
  match answer s words.length words with
  | .ok true => s.withStatus 0
  | .ok false => s.withStatus 1
  | .error word => s.complainHere 2 s!"[: Illegal number: {word}"

end Wheelwright.Shell.Condition
