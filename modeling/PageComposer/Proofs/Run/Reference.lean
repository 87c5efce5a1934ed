import PageComposer.Proofs.Path.Joining
import PageComposer.Proofs.Run.Simultaneous
import PageComposer.Proofs.Scan.Meeting

namespace PageComposer

/-!
# What a relative name is relative to

A relative name is taken from the folder of the document that is being scanned.
The text of an included file becomes part of the template, and the next run scans
it there.  A relative name in it is therefore taken from the folder of the template,
and no longer from that of the file it was written in
(`Composer.included_tag_refers`).  The two agree for names that are not relative,
and for files in the same folder as the template (`absoluteName_congr`).
-/

variable {site : Site} {kind : Kind} {start : Nat} {raw : Text} {tag : Placeholder}

/-- Of the document only the folder matters for a relative name, and nothing for
other names. -/
theorem absoluteName_congr {left right : Path} {name : Text}
    (beside : isRelativeName name = true -> left.folder.parts = right.folder.parts) :
    absoluteName site left name = absoluteName site right name := by
  unfold absoluteName
  by_cases relative : isRelativeName name = true
  · rw [if_pos relative, if_pos relative]
    have joined : (left.folder.join ⟨name ++ markupSuffix⟩).normalize =
        (right.folder.join ⟨name ++ markupSuffix⟩).normalize := by
      unfold Path.normalize
      rw [Path.parts_join_congr (beside relative)]
    rw [joined]
  · rw [if_neg relative, if_neg relative]

/-- Tags of one kind and name mean the same file. -/
theorem locate_congr {listing : Listing} {addressing : Addressing} {left right : Placeholder}
    (kinds : left.kind = right.kind) (names : left.name = right.name) :
    (listing.toSite addressing).locate left = (listing.toSite addressing).locate right := by
  simp only [Listing.toSite, Site.locateIn, kinds, names]

/-! ## The text of a file in the document of its template -/

theorem Placeholder.infix_region (placeholder : Placeholder) (marked : Bool) (text : Text) :
    text <:+: placeholder.region marked text := by
  unfold region
  split
  · exact ⟨_, _, rfl⟩
  · exact List.infix_rfl

theorem WrapApplied.isInfix {wrap : Placeholder} {front back result text : Text}
    (applied : WrapApplied site wrap front back result)
    (inside : text <:+: front ∨ text <:+: back) : text <:+: result := by
  have either {left right more : Text} (around : left <:+: more) (behind : right <:+: more)
      (here : text <:+: left ∨ text <:+: right) : text <:+: more :=
    here.elim (fun first => first.trans around) fun second => second.trans behind
  cases applied with
  | @wrapped wrapper contents before after slot located read main =>
      apply either _ _ inside
      · exact ⟨before, back ++ after, by simp only [List.append_assoc]⟩
      · exact ⟨before ++ front, after, by simp only [List.append_assoc]⟩
  | unresolved lost missing =>
      apply either _ _ inside
      · exact ⟨[], unprocessedBlock wrap ++ back, by simp⟩
      · exact ⟨front ++ unprocessedBlock wrap, [], by simp⟩

namespace Composer

variable {composer : Composer} {template : Path} {options : Options} {document result : Text}
  {placeholders : List Placeholder} {includes after : Includes} {placeholder : Placeholder}

theorem infix_shownSpans {offset : Nat} {resolved : List (Placeholder × Resolution)} {text : Text}
    (laid : Laid offset (resolved.map Prod.fst) text) {found : Placeholder × Resolution}
    (member : found ∈ resolved) (noWrap : found.1.kind ≠ .wrap) :
    found.2.shown options found.1 <:+:
      substituteFrom offset (shownSpans options resolved) text := by
  have kept : (found.1, found.2.shown options found.1) ∈ shownSpans options resolved := by
    refine List.mem_map.mpr ⟨found, List.mem_filter.mpr ⟨member, ?_⟩, rfl⟩
    simpa using noWrap
  refine infix_substituteFrom ?_ kept
  rw [shownSpans_placeholders]
  exact laid.filter _

/-- What a run resolves a placeholder to stands in its result, also when the
document is put into a wrapper. -/
theorem infix_of_run (scanned : composer.scan template document = .ok placeholders)
    (finished : composer.run template options document placeholders includes =
      .ok (result, after))
    (member : placeholder ∈ placeholders) (noWrap : placeholder.kind ≠ .wrap) :
    ∃ resolution, composer.resolve template placeholder = .ok resolution ∧
      resolution.shown options placeholder <:+: result := by
  rcases exists_absorbed_of_run scanned finished with
    ⟨resolved, state, all, laid, stateEqual, applied⟩
  rcases resolveAll_eq_ok_iff.mp all with ⟨same, each⟩
  rw [← same] at laid member
  rcases List.mem_map.mp member with ⟨found, within, equal⟩
  subst equal
  refine ⟨found.2, each found within, ?_⟩
  cases last? : lastWrap? (resolved.map Prod.fst) with
  | none =>
      have standing : ({ text := document } : RunState).text = [] ++ document ++ [] :=
        (List.append_nil _).symm
      have text := (absorbed options standing laid rfl).1
      have without := @absorbed_without_wrap options resolved.reverse
        (by rw [List.map_reverse]; simpa using lastWrap?_eq_none_iff.mp last?)
        { text := document } rfl
      rw [← stateEqual] at without text
      rw [without] at applied
      cases applied
      rw [text, List.nil_append, List.append_nil]
      exact infix_shownSpans laid within noWrap
  | some wrap =>
      rcases exists_split_of_lastWrap? last? with ⟨earlier, later, split, isWrap, without⟩
      rcases List.map_eq_append_iff.mp split with ⟨first, second, joined, firstMap, secondMap⟩
      rcases List.map_eq_cons_iff.mp secondMap with
        ⟨⟨last, resolution⟩, behind, secondSplit, foundWrap, behindMap⟩
      subst joined secondSplit firstMap behindMap
      subst foundWrap
      rw [split] at laid
      rcases laid.split with ⟨front, rest, around, starts, stops, laidFront, laidRest⟩
      rw [Nat.zero_add] at starts
      have kept := absorbed_wrap options resolution isWrap without starts stops laidFront laidRest
      rw [← around, ← stateEqual] at kept
      rw [kept.2, kept.1] at applied
      apply (wrapApplied_of_applyWrap rfl rfl applied).isInfix
      rcases List.mem_append.mp within with before | other
      · exact Or.inl (infix_shownSpans laidFront before noWrap)
      · rcases List.mem_cons.mp other with equal | behindWrap
        · exact absurd (equal ▸ isWrap) noWrap
        · exact Or.inr (infix_shownSpans laidRest behindWrap noWrap)

/-- The text of an included file becomes part of the document, and every tag in it
that the next scan meets is read under the path of the template.  Where the file is
composed itself, the same tag is read under the path of the file. -/
theorem included_tag_refers {listing : Listing} {addressing : Addressing}
    (sited : composer.site = listing.toSite addressing) {fragment : Path} {contents : Text}
    {inclusion : Placeholder} (scanned : composer.scan template document = .ok placeholders)
    (finished : composer.run template options document placeholders includes =
      .ok (result, after))
    (member : inclusion ∈ placeholders) (isFile : inclusion.kind = .file)
    (located : composer.site.locate inclusion = .ok fragment)
    (read : readFragment composer.site fragment = .ok contents) :
    ∃ front back, result = front ++ Text.trim contents ++ back ∧
      ∀ kind ∈ composer.kinds, ∀ before raw behind next,
        Meets composer.site template kind (front ++ before) raw (behind ++ back) result ->
        composer.scan template result = .ok next ->
        ∃ included ∈ next, ∃ body, included.kind = kind ∧
          Body.ofRaw kind raw included.tag = .ok body ∧
          included.name = absoluteName composer.site template body.name ∧
          ∀ own alone ownBefore ownBehind,
            Meets composer.site fragment kind ownBefore raw ownBehind own ->
            composer.scan fragment own = .ok alone ->
            ∃ single ∈ alone, single.kind = kind ∧
              single.name = absoluteName composer.site fragment body.name ∧
              ((isRelativeName body.name = true ->
                  template.folder.parts = fragment.folder.parts) ->
                composer.site.locate included = composer.site.locate single) := by
  have noWrap : inclusion.kind ≠ .wrap := by
    rw [isFile]
    decide
  have text : composer.fileText inclusion = .ok (Text.trim contents) := by
    unfold fileText
    rw [located]
    dsimp only [bind, Except.bind]
    rw [read]
  rcases infix_of_run scanned finished member noWrap with ⟨resolution, resolved, shown⟩
  have resolution_eq : resolution.text = Text.trim contents := by
    unfold resolve at resolved
    rw [isFile] at resolved
    dsimp only at resolved
    rw [text] at resolved
    cases resolved
    rfl
  have inside : Text.trim contents <:+: resolution.shown options inclusion := by
    unfold Resolution.shown
    rw [isFile, ← resolution_eq]
    exact inclusion.infix_region options.markRegions resolution.text
  rcases inside.trans shown with ⟨front, back, joined⟩
  refine ⟨front, back, joined.symm, ?_⟩
  intro kind wanted before raw behind next met scannedNext
  rcases met.exists_read wanted scannedNext with ⟨included, listed, accepted⟩
  have isKind := readTag_kind accepted
  rcases readTag_name accepted with ⟨body, taken, _, named⟩
  refine ⟨included, listed, body, isKind, taken, named, ?_⟩
  intro own alone ownBefore ownBehind ownMet ownScanned
  rcases ownMet.exists_read wanted ownScanned with ⟨single, ownListed, ownAccepted⟩
  have ownKind := readTag_kind ownAccepted
  rcases readTag_name ownAccepted with ⟨ownBody, ownTaken, _, ownNamed⟩
  have sameBody : ownBody = body := by
    rw [(readTag_span ownAccepted).2.2] at ownTaken
    rw [(readTag_span accepted).2.2, ownTaken] at taken
    exact Except.ok.inj taken
  rw [sameBody] at ownNamed
  refine ⟨single, ownListed, ownKind, ownNamed, fun beside => ?_⟩
  rw [sited]
  apply locate_congr (isKind.trans ownKind.symm)
  rw [named, ownNamed]
  exact absoluteName_congr beside

/-- A page with a part that lies beside it and is named by its place. -/
def pagesSite : Listing :=
  ⟨[(⟨"/site/pages/about.html".toList⟩, "<!-- file:./header -->".toList),
    (⟨"/site/pages/header.html".toList⟩, "<h1>Header</h1>".toList)]⟩

def pagesComposer : Composer where
  site := pagesSite.toSite (.atRoot ⟨"/site".toList⟩)
  kinds := [.file]

/-- The tag that includes the page. -/
def aboutTag (template : Path) : Placeholder where
  name := "/pages/about".toList
  kind := .file
  start := 0
  stop := 26
  tag := "<!-- file:/pages/about -->".toList
  args := []
  style := .none
  document := template

/-- The tag of the part, as it is read where the page is composed and where it is
included. -/
def headerTag (document : Path) (name : Text) : Placeholder where
  name := name
  kind := .file
  start := 0
  stop := 22
  tag := "<!-- file:./header -->".toList
  args := []
  style := .none
  document := document

set_option maxRecDepth 100000 in
/-- A template beside the page takes the part from where the page takes it. -/
theorem included_tag_refers_beside :
    ∃ included ∈ [headerTag ⟨"/site/pages/index.html".toList⟩ "/pages/header".toList],
      ∃ single ∈ [headerTag ⟨"/site/pages/about.html".toList⟩ "/pages/header".toList],
        included.name = absoluteName pagesComposer.site ⟨"/site/pages/index.html".toList⟩
          "./header".toList ∧
        pagesComposer.site.locate included = pagesComposer.site.locate single := by
  have scanned : pagesComposer.scan ⟨"/site/pages/index.html".toList⟩
      "<!-- file:/pages/about -->".toList =
      .ok [aboutTag ⟨"/site/pages/index.html".toList⟩] := by decide +kernel
  have finished : pagesComposer.run ⟨"/site/pages/index.html".toList⟩ {}
      "<!-- file:/pages/about -->".toList [aboutTag ⟨"/site/pages/index.html".toList⟩] {} =
      .ok ("<!-- file:./header -->".toList, {}) := by decide +kernel
  have read : readFragment pagesComposer.site ⟨"/site/pages/about.html".toList⟩ =
      .ok "<!-- file:./header -->".toList := by decide +kernel
  have located : pagesComposer.site.locate (aboutTag ⟨"/site/pages/index.html".toList⟩) =
      .ok ⟨"/site/pages/about.html".toList⟩ := by decide +kernel
  have trimmed : Text.trim "<!-- file:./header -->".toList = "<!-- file:./header -->".toList := by
    decide
  have unclosed : ¬ tagClose <:+: "./header".toList := by
    rw [← Text.contains_iff]
    decide
  have met (document : Path) : Meets pagesComposer.site document .file [] "./header".toList []
      "<!-- file:./header -->".toList := ⟨by decide, unclosed, [], scanKindFrom_nil⟩
  rcases included_tag_refers rfl scanned finished List.mem_cons_self rfl located read with
    ⟨front, back, joined, refers⟩
  rw [trimmed] at joined
  have sizes := congrArg List.length joined
  simp only [List.length_append] at sizes
  have nothing : front = [] := List.length_eq_zero_iff.mp (by omega)
  have noMore : back = [] := List.length_eq_zero_iff.mp (by omega)
  subst nothing noMore
  rcases refers .file (by decide) [] "./header".toList []
    [headerTag ⟨"/site/pages/index.html".toList⟩ "/pages/header".toList] (met _)
    (by decide +kernel) with ⟨included, listed, body, _, taken, named, alone⟩
  cases taken
  rcases alone _ [headerTag ⟨"/site/pages/about.html".toList⟩ "/pages/header".toList] [] []
    (met _) (by decide +kernel) with ⟨single, ownListed, _, _, same⟩
  exact ⟨included, listed, single, ownListed, named, same fun _ => by decide +kernel⟩

/-- What the page becomes by itself. -/
def aboutAlone : Composition where
  content := "<h1>Header</h1>".toList
  template := ⟨"/site/pages/about.html".toList⟩
  includes := {}
  runs := 1
  converged := true

/-- What it becomes in a template in another folder. -/
def aboutIncluded : Composition where
  content := "<div style=\"background-color: #f08080\">".toList ++
    "Could not process file:/header</div>".toList
  template := ⟨"/site/index.html".toList⟩
  includes := {}
  runs := 2
  converged := true

set_option maxRecDepth 100000 in
/-- A template in another folder does not find the part. -/
theorem included_tag_misses_part :
    pagesComposer.composeWith ⟨"/site/pages/about.html".toList⟩ "<!-- file:./header -->".toList {} =
        .ok aboutAlone ∧
      pagesComposer.composeWith ⟨"/site/index.html".toList⟩ "<!-- file:/pages/about -->".toList {} =
        .ok aboutIncluded := by
  constructor
  · decide +kernel
  · decide +kernel

end Composer
end PageComposer
