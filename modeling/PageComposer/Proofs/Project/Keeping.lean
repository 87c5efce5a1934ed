import PageComposer.Proofs.Path.Directories
import PageComposer.Proofs.Project.Writing

namespace PageComposer

/-!
# Builds keep their templates

A build leaves its templates as they are, and the same ones are collected
afterwards, if the target is set apart from the root (`SetApart`).  A target that
leads to a folder below the root on a detour is not, as the walk compares paths
and not places: what is written there is collected as templates.
-/

open FileTree

variable {tree : FileTree} {root target : Path} {rootPlace : Place}

/-! ## Templates -/

/-- A template that was found has a place among the outputs. -/
theorem IsFound.isPlaced (plain : tree.IsPlain) (leads : tree.LeadsTo root rootPlace)
    {target : Place} {below : List Text} {name : Text}
    (found : IsFound tree root rootPlace target below name)
    (unescaped : ∀ rest, (root.descend (below ++ [name])).relativeTo? root = some rest ->
      '\\' ∉ rest.text) {page : Output}
    (same : page.relative = relativeText .none root (root.descend (below ++ [name]))) :
    IsPlaced page below name := by
  have named := areNames_below plain found.there
  have nonempty : below ++ [name] ≠ [] := by simp
  have relative := Path.relativeTo?_descend leads.nonempty named nonempty
  have fileName := Path.fileName?_descend leads.nonempty named
  refine ⟨?_, named, ?_, ?_⟩
  · unfold relativeText at same
    rw [same, relative, Option.getD_some]
    exact Addressing.slashed_eq (Stray.isText_none _) (unescaped _ relative)
  · have template := found.template
    unfold isTemplate Path.extension? at template
    rw [Bool.and_eq_true, beq_iff_eq, fileName] at template
    rcases Option.bind_eq_some_iff.mp template.1 with ⟨fileName, alone, inner⟩
    rcases Option.bind_eq_some_iff.mp inner with ⟨⟨stem, extension⟩, cut, equal⟩
    cases alone
    cases equal
    rw [(Path.cutExtension?_join cut).1]
    exact Or.inl (List.suffix_append _ _)
  · have looked := found.looked
    simp only [isPassedName, Stray.isText_none, Bool.true_and, Bool.or_eq_false_iff] at looked
    intro dotted
    rcases List.head?_eq_some_iff.mp dotted with ⟨rest, equal⟩
    have undotted := looked.1.1.1
    rw [equal] at undotted
    exact absurd undotted (by simp [Text.startsWith])

/-! ## Pages beside their templates -/

/-- The place of a target is not above a root.  If it is below, then its path
has the parts of the root and names behind them. -/
structure SetApart (tree : FileTree) (root target : Path) : Prop where
  notAbove : ¬ tree.placeTo target <+: tree.placeTo root
  spelled : ∀ names, tree.placeTo target = tree.placeTo root ++ names ->
    target.parts = root.parts ++ names.map Part.name

theorem SetApart.avoided (apart : SetApart tree root target) (nonempty : root.text ≠ [])
    {skipped : List Path} (skips : target ∈ skipped) :
    Avoided root (tree.placeTo root) (tree.placeTo target) skipped := by
  refine ⟨apart.notAbove, fun below named equal => List.any_eq_true.mpr ⟨target, skips, ?_⟩⟩
  rw [Path.same_iff, apart.spelled below equal, Path.parts_descend nonempty named]

/-- Whatever pages are written for templates, they stay as they are, and the same ones are
collected afterwards.  What is selected may depend on the ignore file in any way, so long
as the target is passed by. -/
theorem writePages_keeps_templates (plain : tree.IsPlain) {folder : Path}
    (apart : SetApart tree root (root.join folder))
    (short : Text.byteSize root.text + Text.byteSize (root.join folder).text < maxPathSize)
    {select : Option Text.Bytes -> Selection}
    (skips : ∀ contents, root.join folder ∈ (select contents).skippedFolders)
    {templates : List TemplateEntry}
    (collected : (select (tree.readBytes (ignoreFile root)).toOption).collect tree tree.namesIn
      .none root = .ok templates)
    (unescaped : ∀ entry ∈ templates, ∀ rest, entry.path.relativeTo? root = some rest ->
      '\\' ∉ rest.text)
    {pages : List Output}
    (placed : ∀ page ∈ pages, ∃ entry ∈ templates, page.relative = entry.relative)
    {after : FileTree} (written : (writePages tree (root.join folder) pages).1 = after) :
    (∀ entry ∈ templates, after.readBytes entry.path = tree.readBytes entry.path) ∧
      (select (after.readBytes (ignoreFile root)).toOption).collect after after.namesIn .none root =
        .ok templates := by
  subst written
  by_cases isFolder : tree.isFolder root = true
  · rcases isFolder_iff.mp isFolder with ⟨place, located, there⟩
    have leads := leadsTo_of_placeOf plain located there
    have fits := (isSpelled_of_find (placeOf_eq_ok_iff.mp located)).fits
    rw [← leads.spelled] at leads
    have avoided := apart.avoided leads.nonempty
      (skips (tree.readBytes (ignoreFile root)).toOption)
    have found {entry : TemplateEntry} := @mem_collect tree root _ _ _ _ plain avoided leads fits
      _ templates collected entry
    have inTarget : ∀ page ∈ pages, ∃ below name, IsPlaced page below name := by
      intro page member
      rcases placed page member with ⟨entry, listed, same⟩
      rcases found listed with ⟨below, name, equal, isFound⟩
      subst equal
      exact ⟨below, name, isFound.isPlaced plain leads (unescaped _ listed) same⟩
    have grows := writePages_grows plain leads short inTarget
    have aside : Aside tree _ root _ _ _ := ⟨plain, avoided, grows⟩
    refine ⟨?_, ?_⟩
    · intro entry member
      rcases found member with ⟨below, name, equal, isFound⟩
      have named := (plain.parent isFound.there).2
      rw [equal, Path.descend_concat, readBytes_join plain isFound.leads named,
        readBytes_join grows.plain (grows.leadsTo isFound.leads) named,
        aside.item_eq isFound.outside isFound.there]
    · rw [aside.readBytes_ignoreFile_eq leads]
      exact (aside.collect_eq leads fits _).trans collected
  · have none := (collect_of_not_folder isFolder _).symm.trans collected
    cases none
    have noPages : pages = [] := by
      rw [List.eq_nil_iff_forall_not_mem]
      intro page member
      rcases placed page member with ⟨entry, listed, _⟩
      cases listed
    rw [noPages, writePages]
    exact ⟨fun _ _ => rfl, collected⟩

/-! ## Builds -/

/-- Only templates become pages. -/
theorem mem_templates_of_mem_outputs {config : Config} {templates : List TemplateEntry}
    (collected : collectTemplates tree root (.ofConfig root config) = .ok templates)
    {project : ProjectComposition} (composed : composeProject tree root config = .ok project)
    {page : Output} (member : page ∈ project.outputs) :
    ∃ entry ∈ templates, page.relative = entry.relative := by
  unfold composeProject at composed
  dsimp only at composed
  rw [collected] at composed
  cases composed
  unfold ProjectComposition.outputs ProjectComposition.pages at member
  rcases List.mem_map.mp member with ⟨⟨entry, composition⟩, isPage, equal⟩
  rcases List.mem_filterMap.mp isPage with ⟨result, within, found⟩
  rcases List.mem_map.mp within with ⟨template, inTemplates, same⟩
  split at found
  · cases found
    subst same
    exact ⟨template, inTemplates, by rw [← equal]⟩
  · cases found

/-- A build leaves its templates as they are, and the same ones are collected
afterwards.  This holds also if it fails on the way. -/
theorem build_keeps_templates (plain : tree.IsPlain) {config : Config}
    (apart : SetApart tree root (root.join config.targetFolder))
    (short : Text.byteSize root.text + Text.byteSize (root.join config.targetFolder).text <
      maxPathSize)
    {templates : List TemplateEntry}
    (collected : collectTemplates tree root (.ofConfig root config) = .ok templates)
    (unescaped : ∀ entry ∈ templates, ∀ rest, entry.path.relativeTo? root = some rest ->
      '\\' ∉ rest.text)
    {project : ProjectComposition} (composed : composeProject tree root config = .ok project) :
    (∀ entry ∈ templates,
        (writeOutputs tree project (root.join config.targetFolder)).1.readBytes entry.path =
          tree.readBytes entry.path) ∧
      collectTemplates (writeOutputs tree project (root.join config.targetFolder)).1 root
        (.ofConfig root config) = .ok templates := by
  have pages := fun page => @mem_templates_of_mem_outputs tree root _ _ collected _ composed page
  rcases bind_eq_ok_iff.mp collected with ⟨excluded, rules, selected⟩
  have skips : ∀ contents, root.join config.targetFolder ∈
      ((CollectRules.ofConfig root config).selection root excluded contents).skippedFolders :=
    fun _ => List.mem_singleton.mpr rfl
  have kept := writePages_keeps_templates plain apart short skips selected unescaped pages rfl
  refine ⟨kept.1, bind_eq_ok_iff.mpr ⟨excluded, rules, kept.2⟩⟩

/-- A site with one page, in a folder of its own. -/
def pageSite : FileTree where
  items := [
    (["site".toList], .folder),
    (["site".toList, "pages".toList], .folder),
    (["site".toList, "pages".toList, "index.html".toList], .file (Text.toBytes "Home".toList))]
  workingFolder := []

set_option maxRecDepth 100000 in
/-- The page of a site is written below the folder `build` of it, and its
template stays. -/
theorem build_keeps_templates_of_page :
    ∃ project, composeProject pageSite ⟨"site".toList⟩ {} = .ok project ∧
      (writeOutputs pageSite project ⟨"site/build".toList⟩).1.readBytes
        ⟨"site/build/pages/index.html".toList⟩ = .ok (Text.toBytes "Home".toList) ∧
      (∀ entry ∈ [(⟨⟨"site/pages/index.html".toList⟩, "pages/index.html".toList⟩ : TemplateEntry)],
        (writeOutputs pageSite project ⟨"site/build".toList⟩).1.readBytes entry.path =
          pageSite.readBytes entry.path) ∧
      collectTemplates (writeOutputs pageSite project ⟨"site/build".toList⟩).1 ⟨"site".toList⟩
        (.ofConfig ⟨"site".toList⟩ {}) =
          .ok [⟨⟨"site/pages/index.html".toList⟩, "pages/index.html".toList⟩] := by
  have built : (composeProject pageSite ⟨"site".toList⟩ {}).map (fun project =>
      (writeOutputs pageSite project ⟨"site/build".toList⟩).1.readBytes
        ⟨"site/build/pages/index.html".toList⟩) = .ok (.ok (Text.toBytes "Home".toList)) := by
    decide +kernel
  have collected : collectTemplates pageSite ⟨"site".toList⟩ (.ofConfig ⟨"site".toList⟩ {}) =
      .ok [⟨⟨"site/pages/index.html".toList⟩, "pages/index.html".toList⟩] := by
    decide +kernel
  have apart : SetApart pageSite ⟨"site".toList⟩ ⟨"site/build".toList⟩ := by
    refine ⟨by decide, fun names equal => ?_⟩
    have same : names = ["build".toList] :=
      (@List.append_cancel_left _ ["site".toList] ["build".toList] names equal).symm
    rw [same]
    decide
  rcases map_eq_ok_iff.mp built with ⟨project, composed, written⟩
  refine ⟨project, composed, written, ?_⟩
  exact @build_keeps_templates pageSite ⟨"site".toList⟩ (by decide) {} apart (by decide) _ collected
    (by decide) project composed

/-- A site with a page that takes in a part, and an empty folder. -/
def detourSite : FileTree where
  items := [
    (["site".toList], .folder),
    (["site".toList, "pages".toList], .folder),
    (["site".toList, "index.html".toList], .file (Text.toBytes "<!-- file:/_part -->".toList)),
    (["site".toList, "_part.html".toList], .file (Text.toBytes "Home".toList))]
  workingFolder := []

/-- The only template of that site. -/
def detourEntry : TemplateEntry := ⟨⟨"site/index.html".toList⟩, "index.html".toList⟩

/-- The settings for a target. -/
def targeting (target : Path) : Config := { targetFolder := target }

/-- What is selected in that site, or in one that it has become, for a target on a detour. -/
def detourSelection (tree : FileTree) : Selection :=
  (CollectRules.ofConfig ⟨"site".toList⟩ (targeting ⟨"pages/../out".toList⟩)).selection
    ⟨"site".toList⟩ [] (tree.readBytes (ignoreFile ⟨"site".toList⟩)).toOption

set_option maxRecDepth 100000 in
/-- A build that reaches its target on a detour collects its own output the next
time, and a build in place overwrites its templates. -/
theorem build_consumes_its_input :
    detourSite.IsPlain ∧
      (∃ project written,
        collectTemplates detourSite ⟨"site".toList⟩
          (.ofConfig ⟨"site".toList⟩ (targeting ⟨"pages/../out".toList⟩)) = .ok [detourEntry] ∧
        composeProject detourSite ⟨"site".toList⟩ (targeting ⟨"pages/../out".toList⟩) =
          .ok project ∧
        (writeOutputs detourSite project ⟨"site/pages/../out".toList⟩).2 = .ok written ∧
        collectTemplates (writeOutputs detourSite project ⟨"site/pages/../out".toList⟩).1
          ⟨"site".toList⟩ (.ofConfig ⟨"site".toList⟩ (targeting ⟨"pages/../out".toList⟩)) ≠
            .ok [detourEntry]) ∧
      ∃ project written,
        collectTemplates detourSite ⟨"site".toList⟩
          (.ofConfig ⟨"site".toList⟩ (targeting ⟨".".toList⟩)) = .ok [detourEntry] ∧
        composeProject detourSite ⟨"site".toList⟩ (targeting ⟨".".toList⟩) = .ok project ∧
        (writeOutputs detourSite project ⟨"site/.".toList⟩).2 = .ok written ∧
        (writeOutputs detourSite project ⟨"site/.".toList⟩).1.readBytes detourEntry.path ≠
          detourSite.readBytes detourEntry.path := by
  refine ⟨by decide, ?_, ?_⟩
  · have built : (composeProject detourSite ⟨"site".toList⟩
        (targeting ⟨"pages/../out".toList⟩)).map (fun project =>
          ((writeOutputs detourSite project ⟨"site/pages/../out".toList⟩).2,
            (walkOver (writeOutputs detourSite project ⟨"site/pages/../out".toList⟩).1
              (detourSelection (writeOutputs detourSite project
                ⟨"site/pages/../out".toList⟩).1).ignores
              [⟨"site/pages/../out".toList⟩]).templates ⟨"site".toList⟩)) =
        .ok (.ok [⟨"site/pages/../out/index.html".toList⟩],
          .ok [⟨"site/out/index.html".toList⟩, ⟨"site/index.html".toList⟩]) := by
      decide +kernel
    rcases map_eq_ok_iff.mp built with ⟨project, composed, both⟩
    rw [Prod.mk.injEq] at both
    refine ⟨project, _, by decide +kernel, composed, both.1, ?_⟩
    intro single
    rcases bind_eq_ok_iff.mp single with ⟨excluded, none, walked⟩
    cases none
    have sizes := length_collect (fun _ => rfl) both.2 walked
    cases sizes
  · have built : (composeProject detourSite ⟨"site".toList⟩ (targeting ⟨".".toList⟩)).map
        (fun project => ((writeOutputs detourSite project ⟨"site/.".toList⟩).2,
          (writeOutputs detourSite project ⟨"site/.".toList⟩).1.readBytes detourEntry.path)) =
        .ok (.ok [⟨"site/./index.html".toList⟩], .ok (Text.toBytes "Home".toList)) := by
      decide +kernel
    rcases map_eq_ok_iff.mp built with ⟨project, composed, both⟩
    rw [Prod.mk.injEq] at both
    refine ⟨project, _, by decide +kernel, composed, both.1, ?_⟩
    rw [both.2]
    decide +kernel

end PageComposer
