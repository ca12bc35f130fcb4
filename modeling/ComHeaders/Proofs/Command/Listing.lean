import ComHeaders.CommandLine.Command
import ComHeaders.Proofs.Sessions

/-!
# Listing the namespaces

The command can list the namespaces of a dump.  A dump that is reported as a wrong format ends the
listing with a word in the journal.  Every other failure leaves it: a file that cannot be read, what
escapes the report about the dump, namespaces that cannot be put in order, and a name that the
console cannot show (`listed_eq_error`).
-/

namespace ComHeaders

open Work Workspace
open Failure (IsFormatError)

theorem not_isFormatError_fault (f : Fault) : ¬ IsFormatError (.fault f) := by
  cases f <;> simp [IsFormatError, Failure.kind, Fault.tag]

theorem isGeneration_of_isFormatError {e : Failure} (h : IsFormatError e) :
    e.isGeneration = true := by
  cases e with
  | fault f => exact absurd h (not_isFormatError_fault f)
  | _ => rfl

namespace Command

variable {host : Host} {w : Workspace} {c : Configuration} {settings : Settings} {path : Path}
variable {x : Except Fault Contents}

/-- How the listing of the namespaces of a dump ends. -/
def listed (host : Host) (path : Path) (x : Except Fault Contents) : Except Failure Ending :=
  match Repository.loadedFrom path x with
  | .error e => if e.isGeneration then .ok .failed else .error e
  | .ok r => match r.namespaces with
    | .error f => .error (.fault f)
    | .ok ns =>
      if (ns.map Value.text).all host.displays then .ok .success
      else .error (.fault .unencodable)

/-- What a listing is for. -/
def sayNamespaces (host : Host) (g : Generator) : Work Unit := do
  (← Work.ofExcept g.namespaces).forM fun n => Work.say host.displays n.text

theorem sayNamespaces_error {g : Generator} {f : Fault} (h : g.repository.namespaces = .error f)
    (w : Workspace) : (sayNamespaces host g).perform w = (.error (.fault f), w) := by
  rw [sayNamespaces, perform_bind, perform_ofExcept, Generator.namespaces, h]
  rfl

theorem sayNamespaces_eq {g : Generator} {ns : List Value} (h : g.repository.namespaces = .ok ns)
    (w : Workspace) : (sayNamespaces host g).perform w =
      ((ns.map Value.text).forM (say host.displays)).perform w := by
  have hmap : (ns.map Value.text).forM (say host.displays) =
      ns.forM fun n => say host.displays n.text := List.forM_map
  rw [sayNamespaces, perform_bind, perform_ofExcept, Generator.namespaces, h, hmap]
  rfl

/-- **What a listing does.** -/
theorem listNamespaces_perform (host : Host) (settings : Settings)
    (hlog : ¬ w.LogsTo c.metadataFile) :
    ∃ v, (listNamespaces host c settings).perform w =
        (listed host c.metadataFile (w.files.read c.metadataFile), v) ∧
      ∀ r ns, Repository.loadedFrom c.metadataFile (w.files.read c.metadataFile) = .ok r →
        r.namespaces = .ok ns → (∀ line ∈ ns.map Value.text, host.displays line = true) →
        v.texts = w.texts ++ ns.map Value.text := by
  show ∃ v, (tryCatch (Generator.session c.metadataFile settings (sayNamespaces host) >>= fun _ =>
    pure Ending.success) _ : Work Ending).perform w = _ ∧ _
  rw [perform_tryCatch, perform_bind, listed]
  rcases hloaded : Repository.loadedFrom c.metadataFile (w.files.read c.metadataFile) with e | r
  · obtain ⟨j, hj⟩ := Generator.session_of_error settings (sayNamespaces host) hlog hloaded
    rw [hj]
    simp only
    rcases he : e.isGeneration with _ | _
    · exact ⟨_, rfl, nofun⟩
    · exact ⟨_, rfl, nofun⟩
  obtain ⟨j, j', hj⟩ := Generator.session_of_ok settings (sayNamespaces host) hlog hloaded
  rw [hj]
  simp only
  rcases hns : r.namespaces with f | ns
  · rw [sayNamespaces_error hns]
    refine ⟨_, rfl, ?_⟩
    rintro _ _ ⟨⟩ h
    cases hns.symm.trans h
  rw [sayNamespaces_eq (g := ⟨r, settings⟩) hns]
  by_cases hall : ∀ line ∈ ns.map Value.text, host.displays line = true
  · obtain ⟨v, hv, htexts⟩ := say_forM hall (w.recording j id)
    rw [hv]
    simp only [List.all_eq_true.2 hall, if_true]
    refine ⟨_, rfl, ?_⟩
    rintro _ _ ⟨⟩ h -
    cases hns.symm.trans h
    rw [texts_recording, htexts, texts_recording]
  · have hnot : (ns.map Value.text).all host.displays = false :=
      Bool.eq_false_iff.2 fun h => hall (List.all_eq_true.1 h)
    have hline : ∃ line ∈ ns.map Value.text, host.displays line = false := by simpa using hnot
    obtain ⟨v, hv⟩ := say_forM_error hline (w.recording j id)
    rw [hv]
    simp only [hnot, Bool.false_eq_true, if_false]
    refine ⟨_, rfl, ?_⟩
    rintro _ _ ⟨⟩ h hshown
    cases hns.symm.trans h
    exact absurd hshown hall

/-- A dump whose namespaces cannot be listed otherwise than by a word in the journal, with the
failure that leaves the listing. -/
inductive Unlistable (host : Host) (path : Path) (x : Except Fault Contents) : Failure → Prop
  /-- The file cannot be read. -/
  | unreadable {f : Fault} (h : x = .error f) : Unlistable host path x (.fault f)
  /-- What is wrong with the metadata is not reported as a wrong format. -/
  | metadata {contents : Contents} {e : Failure} (hc : x = .ok contents) (h : contents.Escapes e) :
    Unlistable host path x e
  /-- The namespaces cannot be put in order. -/
  | order {r : Repository} {f : Fault} (hr : Repository.loadedFrom path x = .ok r)
    (h : r.namespaces = .error f) : Unlistable host path x (.fault f)
  /-- The console cannot show one of the namespaces. -/
  | display {r : Repository} {ns : List Value} {n : Value}
    (hr : Repository.loadedFrom path x = .ok r) (hns : r.namespaces = .ok ns) (hn : n ∈ ns)
    (h : host.displays n.text = false) : Unlistable host path x (.fault .unencodable)

/-- A dump that is not loaded leaves the listing, unless it is reported as a wrong format. -/
theorem unlistable_of_loadedFrom {e : Failure} (h : Repository.loadedFrom path x = .error e)
    (he : e.isGeneration = false) (hwhole : ∀ contents, x = .ok contents → contents.IsWhole) :
    Unlistable host path x e := by
  rcases x with f | contents
  · cases h
    exact .unreadable rfl
  · have hformat : ¬ IsFormatError e := fun hformat =>
      Bool.false_ne_true (he.symm.trans (isGeneration_of_isFormatError hformat))
    exact .metadata rfl
      ((Repository.failsBeyond_loaded path (hwhole contents rfl) e hformat).1 h)

/-- **What leaves a listing.** -/
theorem listed_eq_error {e : Failure}
    (hwhole : ∀ contents, x = .ok contents → contents.IsWhole) :
    listed host path x = .error e ↔ Unlistable host path x e := by
  rw [listed]
  constructor
  · split
    · rename_i e' he'
      split
      · nofun
      · rename_i hgeneration
        rintro ⟨⟩
        exact unlistable_of_loadedFrom he' (by simpa using hgeneration) hwhole
    · rename_i r hr
      split
      · rename_i f hf
        rintro ⟨⟩
        exact .order hr hf
      · rename_i ns hns
        split
        · nofun
        · rename_i hshown
          rintro ⟨⟩
          obtain ⟨n, hn, hnot⟩ : ∃ n ∈ ns, host.displays n.text = false := by
            simpa using hshown
          exact .display hr hns hn hnot
  · intro h
    cases h with
    | unreadable h =>
      subst h
      rfl
    | metadata hc h =>
      subst hc
      obtain ⟨f, -, rfl⟩ := h.exists_fault
      have hloaded : Repository.loadedFrom path (.ok _) = .error (.fault f) :=
        (Repository.failsBeyond_loaded path (hwhole _ rfl) _ (not_isFormatError_fault f)).2 h
      rw [hloaded]
      rfl
    | order hr h => simp only [hr, h]
    | display hr hns hn h =>
      have hnot : (List.map Value.text _).all host.displays = false :=
        List.all_eq_false.2 ⟨_, List.mem_map_of_mem hn, by simp [h]⟩
      simp only [hr, hns, hnot, Bool.false_eq_true, if_false]

end Command

end ComHeaders
