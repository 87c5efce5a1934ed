import PageComposer.Proofs.Run.Limit

namespace PageComposer

/-!
# The links that a composition registers

The addresses of links are collected while a run goes through its tags from the end
of the document, each in front of those collected before, and the list of a run is
put behind those of the runs before it.  So the styles and the scripts of a
composition stand in the order in which their tags were met: run after run, and in
each run from the front of the document (`Composer.composeWith_registers`).  Tags of
other kinds, and wraps that wait for the end of a run, leave the lists alone.
-/

open List (Forall₂)

namespace Composer

/-- A link registers the address of its resource, which has to be there.  The name
`default` stands for the resource that is named after the template. -/
def Registers (composer : Composer) (template : Path) (link : Placeholder) (address : Text) :
    Prop :=
  ∃ resource,
    (if link.name = "default".toList then
      resource = defaultResource template link.kind.extension
    else composer.site.locate link = .ok resource) ∧
    composer.site.holds resource = true ∧ address = composer.site.address resource

/-- The links among some tags register one address each, in their order. -/
structure Registered (composer : Composer) (template : Path) (tags : List Placeholder)
    (styles scripts : List Text) : Prop where
  styles : Forall₂ (composer.Registers template) (tags.filter fun tag => tag.kind = .linkCss) styles
  scripts :
    Forall₂ (composer.Registers template) (tags.filter fun tag => tag.kind = .linkScript) scripts

variable {composer : Composer} {template : Path} {options : Options}

namespace Registered

variable {tags others : List Placeholder} {styles scripts moreStyles moreScripts : List Text}

theorem nil : Registered composer template [] [] [] :=
  ⟨.nil, .nil⟩

theorem append (first : Registered composer template tags styles scripts)
    (second : Registered composer template others moreStyles moreScripts) :
    Registered composer template (tags ++ others) (styles ++ moreStyles)
      (scripts ++ moreScripts) := by
  constructor
  · rw [List.filter_append]
    exact List.rel_append first.styles second.styles
  · rw [List.filter_append]
    exact List.rel_append first.scripts second.scripts

/-- Wraps register nothing. -/
theorem of_wrapless
    (registered : Registered composer template (tags.filter fun tag => tag.kind != .wrap) styles
      scripts) : Registered composer template tags styles scripts := by
  have kept {kind : Kind} (other : kind ≠ .wrap) :
      (tags.filter fun tag => tag.kind != .wrap).filter (fun tag => tag.kind = kind) =
        tags.filter fun tag => tag.kind = kind := by
    rw [List.filter_filter]
    apply List.filter_congr
    intro tag _
    by_cases same : tag.kind = kind <;> simp [same, other]
  rcases registered with ⟨styled, scripted⟩
  rw [kept (by decide)] at styled scripted
  exact ⟨styled, scripted⟩

end Registered

/-! ## One tag -/

theorem registers_of_linkedAddress {link : Placeholder} {address : Text}
    (linked : composer.linkedAddress template link = .ok address) :
    composer.Registers template link address := by
  unfold linkedAddress at linked
  have present {resource : Path} {failure : Failure}
      (ended : (if composer.site.holds resource then .ok (composer.site.address resource)
        else .error failure : Except Failure Text) = .ok address) :
      composer.site.holds resource = true ∧ address = composer.site.address resource := by
    split at ended
    · rename_i holds
      exact ⟨holds, (Except.ok.inj ended).symm⟩
    · cases ended
  by_cases byDefault : link.name = "default".toList
  · rw [if_pos byDefault] at linked
    exact ⟨_, by rw [if_pos byDefault], present linked⟩
  · rw [if_neg byDefault] at linked
    cases located : composer.site.locate link with
    | ok path =>
        rw [located] at linked
        exact ⟨path, by rw [if_neg byDefault, located], present linked⟩
    | error failure =>
        rw [located] at linked
        dsimp only at linked
        split at linked <;> cases linked

/-- A tag registers what it is resolved to, which is nothing unless it is a link. -/
theorem registered_of_resolve {tag : Placeholder} {resolution : Resolution}
    (resolved : composer.resolve template tag = .ok resolution) :
    Registered composer template [tag] resolution.styles resolution.scripts := by
  unfold resolve at resolved
  cases kind : tag.kind with
  | file | layout =>
      rw [kind] at resolved
      rcases map_eq_ok_iff.mp resolved with ⟨text, _, equal⟩
      subst equal
      constructor <;> simp [kind]
  | content | wrap =>
      rw [kind] at resolved
      cases resolved
      constructor <;> simp [kind]
  | linkCss | linkScript =>
      rw [kind] at resolved
      rcases map_eq_ok_iff.mp resolved with ⟨address, linked, equal⟩
      subst equal
      have registers := registers_of_linkedAddress linked
      constructor <;> simp [kind, registers]

/-! ## One run -/

theorem registered_of_resolved {resolved : List (Placeholder × Resolution)}
    (each : ∀ found ∈ resolved, composer.resolve template found.1 = .ok found.2) :
    Registered composer template (resolved.map Prod.fst)
      (resolved.flatMap fun found => found.2.styles)
      (resolved.flatMap fun found => found.2.scripts) := by
  induction resolved with
  | nil => exact .nil
  | cons found others inductionHypothesis =>
      rw [List.forall_mem_cons] at each
      exact (registered_of_resolve each.1).append (inductionHypothesis each.2)

/-- A run registers the links that were scanned at its start, from the first to the last,
behind those of the runs before it. -/
theorem registered_of_run {document next : Text} {tags : List Placeholder}
    {includes after : Includes} (scanned : composer.scan template document = .ok tags)
    (finished : composer.run template options document tags includes = .ok (next, after)) :
    tags.Pairwise (fun former later => former.start < later.start) ∧
      ∃ styles scripts, Registered composer template tags styles scripts ∧
        after = { includes with
          styles := includes.styles ++ styles
          scripts := includes.scripts ++ scripts } := by
  have nonempty : ∀ tag ∈ tags, tag.start < tag.stop :=
    fun tag member => scan_start_lt_stop scanned member
  have ordered := (scan_laid scanned (disjoint_of_run nonempty finished)).2
  rw [run_eq_progress ordered nonempty] at finished
  rcases bind_eq_ok_iff.mp finished with ⟨state, done, wrapped⟩
  rcases map_eq_ok_iff.mp wrapped with ⟨text, _, equal⟩
  cases equal
  rcases exists_resolved_of_progress done with ⟨resolved, all, stateEqual⟩
  rcases resolveAll_eq_ok_iff.mp all with ⟨same, each⟩
  refine ⟨?_, state.styles, state.scripts, ?_, rfl⟩
  · apply ordered.imp_of_mem
    intro former later member _ apart
    have positive := nonempty former member
    omega
  · have addresses := absorbed_addresses options resolved { text := document }
    rw [← stateEqual] at addresses
    rcases addresses with ⟨styles, scripts⟩
    rw [styles, scripts, ← same]
    apply Registered.of_wrapless
    rw [List.filter_map]
    simp only [List.append_nil]
    have registered := @registered_of_resolved composer template
      (resolved.filter fun found => found.1.kind != .wrap)
      fun found member => each found (List.mem_filter.mp member).1
    exact registered

/-! ## All runs -/

theorem Runs.registered {document : Text} {includes : Includes} {remaining runs : Nat}
    {composition : Composition} {rounds : List (List Placeholder)}
    (made : Runs composer template options remaining runs document includes rounds composition) :
    (∀ tags ∈ rounds, tags.Pairwise fun former later => former.start < later.start) ∧
      ∃ styles scripts, Registered composer template rounds.flatten styles scripts ∧
        composition.includes = { includes with
          styles := includes.styles ++ styles
          scripts := includes.scripts ++ scripts } := by
  induction made with
  | converged => exact ⟨by simp, [], [], .nil, by simp⟩
  | stopped => exact ⟨by simp, [], [], .nil, by simp⟩
  | run scanned finished _ inductionHypothesis =>
      rcases registered_of_run scanned finished with ⟨ordered, styles, scripts, first, equal⟩
      rcases inductionHypothesis with ⟨laterOrdered, moreStyles, moreScripts, later, total⟩
      refine ⟨List.forall_mem_cons.mpr ⟨ordered, laterOrdered⟩, styles ++ moreStyles,
        scripts ++ moreScripts, ?_, ?_⟩
      · rw [List.flatten_cons]
        exact first.append later
      · rw [total, equal]
        simp only [List.append_assoc]

/-- The styles of a composition are the addresses of the style links that its runs began
with, one for each link, run after run and in the order of the document; so are its
scripts with the script links.  Nothing is put into the head of the page. -/
theorem composeWith_registers {text : Text} {composition : Composition}
    (composed : composer.composeWith template text options = .ok composition) :
    ∃ rounds, Runs composer template options options.maxRuns 0
        (composer.firstDocument template text) {} rounds composition ∧
      rounds.length = composition.runs ∧
      (∀ tags ∈ rounds, tags.Pairwise fun former later => former.start < later.start) ∧
      Forall₂ (composer.Registers template)
        (rounds.flatMap fun tags => tags.filter fun tag => tag.kind = .linkCss)
        composition.includes.styles ∧
      Forall₂ (composer.Registers template)
        (rounds.flatMap fun tags => tags.filter fun tag => tag.kind = .linkScript)
        composition.includes.scripts ∧
      composition.includes.headScripts = [] := by
  rcases (composeWith_eq_ok_iff.mp composed).2 with ⟨rounds, made⟩
  rcases made.registered with ⟨ordered, styles, scripts, registered, equal⟩
  have count := made.length.1
  rw [Nat.zero_add] at count
  rcases registered with ⟨styled, scripted⟩
  rw [List.filter_flatten, ← List.flatMap_def] at styled scripted
  refine ⟨rounds, made, count.symm, ordered, ?_, ?_, by rw [equal]⟩
  · rw [equal]
    exact styled
  · rw [equal]
    exact scripted

/-- A wrapper, and a part that links a style of its own. -/
def linkedSite : Listing :=
  ⟨[(⟨"/site/frame.html".toList⟩, "<p><!-- content:main --></p>".toList),
    (⟨"/site/part.html".toList⟩, "<!-- linkCss:/part -->".toList),
    (⟨"/site/code.js".toList⟩, []), (⟨"/site/page.css".toList⟩, []),
    (⟨"/site/part.css".toList⟩, [])]⟩

def linkedComposer : Composer where
  site := linkedSite.toSite (.atRoot ⟨"/site".toList⟩)

/-- One style is linked on both sides of a part, behind a wrap. -/
def linkedPage : Text :=
  "<!-- linkScript:/code --><!-- wrap:/frame --><!-- linkCss:/page -->".toList ++
    "<!-- file:/part --><!-- linkCss:/page -->".toList

/-- The placeholders of the page in their order. -/
def linkedPlaceholders : List Placeholder :=
  let read (kind : Kind) (start : Nat) (raw : Text) : List Placeholder :=
    (readTag linkedComposer.site ⟨"/site/index.html".toList⟩ kind start raw).toOption.toList
  read .linkScript 0 "/code".toList ++ read .wrap 25 "/frame".toList ++
    read .linkCss 45 "/page".toList ++ read .file 67 "/part".toList ++
    read .linkCss 86 "/page".toList

/-- The page after its first run. -/
def linkedOnce : Text :=
  "<p><!-- linkCss:/part --></p>".toList

/-- The page after both of its runs. -/
def linkedComposition : Composition where
  content := "<p></p>".toList
  template := ⟨"/site/index.html".toList⟩
  includes := {
    styles := ["/page.css".toList, "/page.css".toList, "/part.css".toList]
    scripts := ["/code.js".toList] }
  runs := 2
  converged := true

set_option maxRecDepth 100000 in
/-- A style that is linked twice is registered twice, and the style of the part behind
both. -/
theorem composeWith_registers_around_part :
    let template : Path := ⟨"/site/index.html".toList⟩
    linkedComposer.composeWith template linkedPage {} = .ok linkedComposition ∧
      ∃ rounds, Runs linkedComposer template {} 100 0
          (linkedComposer.firstDocument template linkedPage) {} rounds linkedComposition ∧
        rounds.length = 2 ∧
        (∀ tags ∈ rounds, tags.Pairwise fun former later => former.start < later.start) ∧
        Forall₂ (linkedComposer.Registers template)
          (rounds.flatMap fun tags => tags.filter fun tag => tag.kind = .linkCss)
          ["/page.css".toList, "/page.css".toList, "/part.css".toList] ∧
        Forall₂ (linkedComposer.Registers template)
          (rounds.flatMap fun tags => tags.filter fun tag => tag.kind = .linkScript)
          ["/code.js".toList] ∧
        linkedComposition.includes.headScripts = [] := by
  intro template
  have scanned : linkedComposer.scan template linkedPage = .ok linkedPlaceholders := by
    apply @scan_of_perm _ _ _ _ _ (Kind.all.map fun kind =>
      linkedPlaceholders.filter fun placeholder => placeholder.kind = kind)
    all_goals decide +kernel
  have finished : linkedComposer.run template {} linkedPage linkedPlaceholders {} =
      .ok (linkedOnce, {
        styles := ["/page.css".toList, "/page.css".toList]
        scripts := ["/code.js".toList] }) := by
    rw [run_eq_progress (by decide +kernel) (by decide +kernel)]
    decide +kernel
  have rest : linkedComposer.runWithin template {} 99 1 linkedOnce {
      styles := ["/page.css".toList, "/page.css".toList]
      scripts := ["/code.js".toList] } = .ok linkedComposition := by decide +kernel
  have unchanged : linkedComposer.firstDocument template linkedPage = linkedPage := by
    decide +kernel
  rcases runs_of_runWithin rest with ⟨rounds, runs⟩
  have composed : linkedComposer.composeWith template linkedPage {} = .ok linkedComposition := by
    refine composeWith_eq_ok_iff.mpr ⟨by decide +kernel, linkedPlaceholders :: rounds, ?_⟩
    rw [unchanged]
    exact .run scanned finished runs
  exact ⟨composed, composeWith_registers composed⟩

end Composer
end PageComposer
