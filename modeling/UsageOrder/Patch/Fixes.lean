import UsageOrder.Patch.Diagnostic

/-!
# Applying fixes

The fixes of several diagnostics are all computed from one text.  They are taken in the order of
that text, a fix that overlaps one already taken is left out, and the taken ones are applied from
the last to the first, so that none shifts the offsets of another.
-/

namespace UsageOrder

/-- A diagnostic with its fix. -/
structure Fixable where
  diagnostic : Diagnostic
  edit : Edit

namespace Fixable

/-- The diagnostics that have a fix, in the order of the text. -/
def sorted (diagnostics : List Diagnostic) : List Fixable :=
  (diagnostics.filterMap fun diagnostic => diagnostic.fix.map (Fixable.mk diagnostic)).mergeSort
    fun a b => a.edit.le b.edit

/-- Takes a fix unless it overlaps one that is taken. -/
def take (taken : List Fixable) (fixable : Fixable) : List Fixable :=
  if taken.any fun other => fixable.edit.overlaps other.edit then taken else taken ++ [fixable]

/-- The fixes that are taken, in the order of the text. -/
def accepted (diagnostics : List Diagnostic) : List Fixable := (sorted diagnostics).foldl take []

/-- The text after some fixes, the last one being applied first. -/
def applyAll (text : Text) (fixes : List Fixable) : Text :=
  fixes.foldr (fun fixable text => fixable.edit.apply text) text

end Fixable

/-- The text with its fixes applied, and the diagnostics whose fix was. -/
def applyFixes (text : Text) (diagnostics : List Diagnostic) : Text × List Diagnostic :=
  let accepted := Fixable.accepted diagnostics
  (Fixable.applyAll text accepted, accepted.map Fixable.diagnostic)

end UsageOrder
