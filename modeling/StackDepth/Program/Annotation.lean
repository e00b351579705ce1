import StackDepth.Program.Basic

/-!
# Annotations

An annotation lists the possible targets of an indirect call or jump; the site and the targets are labels
or numbers. On the command line it is written `SITE=T1,T2`.
-/

namespace StackDepth

/-- The targets of an indirect transfer, as they were written. -/
@[ext]
structure Annotation where
  /-- The site. -/
  site : String := ""
  /-- The targets. -/
  targets : List String := []
deriving DecidableEq, Inhabited

/-- A text that is no annotation. -/
structure BadAnnotation where
  /-- The text. -/
  text : String
deriving DecidableEq, Inhabited

/-- The text of the error. -/
def BadAnnotation.message (e : BadAnnotation) : String :=
  "bad --indirect " ++ Text.quoted e.text ++ ", want SITE=T1,T2"

/-- Reads a site, an equals sign and targets between commas; empty targets are left out. -/
def Annotation.parse (s : String) : Except BadAnnotation Annotation :=
  match Text.cutWith? (· == '=') s.toList with
  | none => .error ⟨s⟩
  | some (site, list) =>
      let site := Text.trimList site
      if site.isEmpty then .error ⟨s⟩
      else
        let targets := ((Text.splitOn ',' list).map Text.trimList).filter (!·.isEmpty)
        .ok { site := String.ofList site, targets := targets.map String.ofList }

/-- Why an annotation cannot be applied. -/
inductive AnnotateError where
  /-- The site is no address. -/
  | badSite (cause : ResolveError)
  /-- A target is no address. -/
  | badTarget (site : String) (cause : ResolveError)
deriving DecidableEq, Inhabited

/-- What is wrong with the address. -/
def AnnotateError.cause : AnnotateError → ResolveError
  | .badSite cause => cause
  | .badTarget _ cause => cause

/-- The text of an error. -/
def AnnotateError.message : AnnotateError → String
  | .badSite cause => "indirect-targets site: " ++ cause.message
  | .badTarget site cause => "indirect-targets of " ++ site ++ ": " ++ cause.message

namespace Program

/-- Applies an annotation. -/
def annotate (p : Program) (a : Annotation) : Except AnnotateError Program :=
  match p.resolve a.site with
  | .error cause => .error (.badSite cause)
  | .ok site =>
      match a.targets.mapM p.resolve with
      | .error cause => .error (.badTarget a.site cause)
      | .ok targets => .ok (p.setTargets site targets)

/-- Applies annotations one after the other up to the first that cannot be applied, and gives the reason
why it cannot. -/
def annotateUntil (p : Program) : List Annotation → Program × Option AnnotateError
  | [] => (p, none)
  | a :: rest =>
      match p.annotate a with
      | .ok p => p.annotateUntil rest
      | .error e => (p, some e)

/-- Applies annotations one after the other. -/
def annotateAll (p : Program) (as : List Annotation) : Except AnnotateError Program :=
  match p.annotateUntil as with
  | (p, none) => .ok p
  | (_, some e) => .error e

end Program

end StackDepth
