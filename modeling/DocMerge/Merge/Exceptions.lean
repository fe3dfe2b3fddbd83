import DocMerge.Merge.Label
import DocMerge.Merge.Policy
import DocMerge.Similarity.Score

/-!
# Merging exceptions

An exception of the source counts as the same as a documented one of the destination if both have
the same type and their texts are similar enough. One that is not the same as any fills a
placeholder of its type or, if there is none, is added.
-/

namespace DocMerge.Merge

open DocId (Key)

inductive ExceptionStep
  | leave
  /-- Gives a new text to the exception in the given place. -/
  | replace (place : Nat)
  | append
  deriving DecidableEq, Repr

def sameType (a b : ExceptionDoc) : Bool := (Key.ofDocId a.cref).agrees (Key.ofDocId b.cref)

abbrev BestMatch := Option (Nat × Score)

/-- Keeps the better of two matches; of equal ones, the earlier. -/
def BestMatch.offer (best : BestMatch) (place : Nat) (score : Score) : BestMatch :=
  match best with
  | some (_, known) => if score > known then some (place, score) else best
  | none => some (place, score)

/-- The documented exception of the same type that is most similar to the given one, where the list
begins at a place. -/
def mostSimilar (incoming : ExceptionDoc) : Nat → BestMatch → List ExceptionDoc → BestMatch
  | _, best, [] => best
  | place, best, e :: rest =>
    mostSimilar incoming (place + 1)
      (if sameType e incoming && !isUndocumented e.text then
        best.offer place (similarity e.text incoming.text) else best)
      rest

def placeholderFor? (incoming : ExceptionDoc) (existing : List ExceptionDoc) : Option Nat :=
  existing.findIdx? (fun e => sameType e incoming && isUndocumented e.text)

def isCollision (policy : Policy) (best : BestMatch) : Bool :=
  match best with
  | some (_, score) => policy.collisionThreshold ≤ score
  | none => false

def decideException (policy : Policy) (existing : List ExceptionDoc) (incoming : ExceptionDoc) :
    ExceptionStep :=
  let best := mostSimilar incoming 0 none existing
  if isCollision policy best then
    match best with
    | some (place, _) =>
      if policy.replaceExceptions && (existing[place]?.map (·.text)) != some incoming.text then
        .replace place
      else .leave
    | none => .leave
  else
    match placeholderFor? incoming existing with
    | some place => .replace place
    | none => if policy.addExceptions then .append else .leave

def ExceptionStep.apply (step : ExceptionStep) (existing : List ExceptionDoc)
    (incoming : ExceptionDoc) : List ExceptionDoc :=
  match step with
  | leave => existing
  | replace place => existing.modify place (fun e => { e with text := incoming.text })
  | append => existing ++ [incoming]

def mergeException (policy : Policy) (existing : List ExceptionDoc) (incoming : ExceptionDoc) :
    List ExceptionDoc × List Label :=
  if isUndocumented incoming.text then (existing, [])
  else
    let incoming := { incoming with text := trimmed incoming.text }
    let step := decideException policy existing incoming
    (step.apply existing incoming, if step = .leave then [] else [.exception incoming.cref])

def mergeExceptionList (policy : Policy) (existing : List ExceptionDoc) :
    List ExceptionDoc → List ExceptionDoc × List Label
  | [] => (existing, [])
  | incoming :: rest =>
    let (existing, labels) := mergeException policy existing incoming
    let (existing, more) := mergeExceptionList policy existing rest
    (existing, labels ++ more)

/-- Merges the exceptions of a source into an entry. An entry without documentation elements
receives nothing. -/
def mergeExceptions (policy : Policy) (docs source : DocFields) : DocFields × List Label :=
  if docs.present then
    let (exceptions, labels) := mergeExceptionList policy docs.exceptions source.exceptions
    ({ docs with exceptions }.markIf (!labels.isEmpty), labels)
  else (docs, [])

end DocMerge.Merge
