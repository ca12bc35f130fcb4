import ComHeaders.Workspace

/-!
# Progress

A run says in the journal what it is doing, how long that took, and what came of it.
-/

namespace ComHeaders

namespace Progress

/-- Follows an operation with a name. -/
def operation {α : Type} (name : String) (x : Work α) : Work α := do
  note (.plain .generator .debug s!"Starting operation: {name}")
  let a ← tryCatch x fun f => do
    note ⟨.generator, .error,
      [.text s!"Failed operation: {name} after ", .seconds, .text "s:", .cause f]⟩
    throw f
  note ⟨.generator, .debug, [.text s!"Completed operation: {name} in ", .seconds, .text "s"]⟩
  return a

/-- Follows the pass over a namespace, and counts it. -/
def passOver {α : Type} (namespaceName : String) (x : Work α) : Work α := do
  Work.count Tally.startNamespace
  let number := (← get).tally.namespaceCount
  note (.plain .generator .debug s!"Processing namespace #{number}: {namespaceName}")
  let a ← tryCatch (operation namespaceName x) fun f => do
    note ⟨.generator, .error,
      [.text s!"Namespace {namespaceName} failed after ", .seconds, .text "s:", .cause f]⟩
    throw f
  note ⟨.generator, .debug, [.text s!"Namespace {namespaceName} completed in ", .seconds, .text "s"]⟩
  return a

/-- Says what was counted. -/
def summary : Work Unit := do
  let t := (← get).tally
  note ⟨.generator, .info,
    [.text (s!"Processing complete: {t.namespaceCount} namespace(s), " ++
      s!"{t.total} entities in "), .seconds, .text "s"]⟩
  if !t.entities.isEmpty then
    note (.plain .generator .debug s!"Entity breakdown: {t.breakdown}")

/-- Says how much memory is in use. -/
def memory : Work Unit :=
  note ⟨.generator, .debug, [.text "Memory usage: ", .megabytes, .text " MB"]⟩

/-- A title between two rules. -/
def banner (speaker : Speaker) (title : String) : Work Unit := do
  let rule := String.ofList (List.replicate 70 '=')
  [rule, title, rule].forM fun line => note (.plain speaker .info line)

end Progress

end ComHeaders
