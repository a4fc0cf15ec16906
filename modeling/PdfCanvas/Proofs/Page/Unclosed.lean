import PdfCanvas.Proofs.Page.Isolation

/-!
# Sessions that are not closed

A session that resets the context puts its `q` in front of the page as soon as it is opened, but the `Q` of it
is in the stream of the session, which gets its bytes when the session is closed. So a session that is given
up, or that is to be closed inside a text object, leaves the `q` behind. It leaves nothing else behind that a
reader would notice, and the sessions that are closed put whole brackets around what is there.
-/

namespace PdfCanvas

open Reader

/-- A session that is closed at the end, or given up. -/
structure Visit where
  script : Script
  givesUp : Bool

namespace Page

/-- The session of a visit when all its calls are made. -/
def drawn (p : Page) (visit : Visit) : Session :=
  (p.openSession visit.script).performAll visit.script.calls

/-- The page that a visit leaves. -/
def visit (p : Page) (visit : Visit) : Page :=
  if visit.givesUp then (p.drawn visit).page else (p.drawn visit).close.2

def visitAll (p : Page) (visits : List Visit) : Page := visits.foldl Page.visit p

/-- Whether the session is closed, so that its stream gets what was drawn. -/
def stores (p : Page) (visit : Visit) : Bool := !visit.givesUp && (p.drawn visit).close.1.isOk

/-- Whether the page gets a `q` in front, and not the `Q` for it. -/
def leavesBracket (p : Page) (visit : Visit) : Bool :=
  visit.script.options.append && p.hasContents && visit.script.options.resetContext && !p.stores visit

/-- The number of brackets that a run of visits leaves open. -/
def bracketsLeft (p : Page) : List Visit → Nat
  | [] => 0
  | visit :: rest => (p.leavesBracket visit).toNat + (p.visit visit).bracketsLeft rest

/-- What is to hold of every visit of a run and of the page that it is made to. -/
def EveryVisit (holds : Page → Visit → Prop) (p : Page) : List Visit → Prop
  | [] => True
  | visit :: rest => holds p visit ∧ (p.visit visit).EveryVisit holds rest

/-- The content is kept, and if anything is drawn behind it, then it is balanced. -/
structure AppendsBalanced (unfilter : Stream → Option Bytes) (p : Page) (visit : Visit) : Prop where
  append : visit.script.options.append = true
  draws : p.stores visit = true → p.DrawsBalanced unfilter visit.script

variable {unfilter : Stream → Option Bytes} {p : Page} {visit : Visit}

/-! ## Closing -/

theorem refusesFlush_drawn (p : Page) (visit : Visit) :
    (p.drawn visit).content.sink.refusesFlush = false := by
  have opened : (p.openSession visit.script).content.sink.refusesFlush = false := by
    by_cases keeps : visit.script.options.append = true ∧ p.streams ≠ []
    · cases reset : visit.script.options.resetContext with
      | false =>
        rw [openSession_of_append keeps reset]
        rfl
      | true =>
        let content := p.openContent visit.script
        have planned : Call.plan content.places content.state .restore = .ok _ := rfl
        rw [openSession_of_reset keeps reset]
        dsimp only
        rw [ContentStream.perform_of_plan rfl planned]
        rfl
    · rw [openSession_of_overwrite keeps]
      rfl
  rw [drawn, Session.performAll_eq,
    ContentStream.performAll_of_unlimited (content_openSession p visit.script).2]
  exact opened

/-- Nothing but an open text object is in the way of closing a session. -/
theorem stores_eq_false_iff :
    p.stores visit = false ↔
      visit.givesUp = true ∨ (p.drawn visit).content.state.graphics.inText = true := by
  rw [stores, Bool.and_eq_false_iff, Bool.not_eq_false', Session.close]
  refine or_congr_right ?_
  cases inText : (p.drawn visit).content.state.graphics.inText with
  | false =>
    rw [ContentStream.close_of_outside inText (refusesFlush_drawn p visit)]
    simp [Except.isOk, Except.toBool]
  | true =>
    simp [ContentStream.close, inText, throw, throwThe, MonadExceptOf.throw, bind, Except.bind,
      Except.isOk, Except.toBool]

theorem close_of_stores (stores : p.stores visit = true) :
    (p.drawn visit).close = (.ok (), p.visit visit) := by
  simp only [Page.stores, Bool.and_eq_true, Bool.not_eq_true'] at stores
  obtain ⟨closes, ended⟩ := stores
  rw [Page.visit, closes, if_neg Bool.false_ne_true]
  generalize (p.drawn visit).close = closed at ended
  obtain ⟨outcome, next⟩ := closed
  cases outcome with
  | error e => cases ended
  | ok done => rfl

/-! ## What a reader finds -/

theorem visit_of_not_stores (leaves : p.stores visit = false) : p.visit visit = (p.drawn visit).page := by
  rw [Page.visit]
  split
  · rfl
  next closes =>
    simp only [Page.stores, closes, Bool.not_false, Bool.true_and, Session.close] at leaves ⊢
    split at leaves
    · cases leaves
    · rfl

/-- A session that is not closed leaves an empty stream behind the content, and the bracket if it opens one. -/
theorem streams_of_not_stores (append : visit.script.options.append = true)
    (leaves : p.stores visit = false) :
    ∃ brackets, (p.visit visit).streams = brackets ++ p.streams ++ [.empty] ∧
      brackets.length = (p.leavesBracket visit).toNat ∧ ∀ stream ∈ brackets, stream.IsSave := by
  rw [visit_of_not_stores leaves, drawn, Session.performAll_eq]
  have bracket : p.leavesBracket visit = (p.hasContents && visit.script.options.resetContext) := by
    simp [leavesBracket, append, leaves]
  by_cases some : p.streams = []
  · have there : p.hasContents = false := by simp [hasContents, some]
    have replaces : ¬(visit.script.options.append = true ∧ p.streams ≠ []) := fun keeps => keeps.2 some
    rw [openSession_of_overwrite replaces, bracket]
    exact ⟨[], by rw [some]; rfl, by simp [there], by simp⟩
  · have there : p.hasContents = true := by simpa [hasContents] using some
    cases reset : visit.script.options.resetContext with
    | true =>
      rw [openSession_of_reset ⟨append, some⟩ reset, bracket]
      refine ⟨[_], rfl, by simp [there, reset], ?_⟩
      simpa using ⟨_, holds_contentStream _ _⟩
    | false =>
      rw [openSession_of_append ⟨append, some⟩ reset, bracket]
      exact ⟨[], rfl, by simp [reset], by simp⟩

theorem reads_of_not_stores (brackets : OpensBrackets unfilter) (empties : unfilter .empty = some [])
    (append : visit.script.options.append = true) (leaves : p.stores visit = false)
    {operations : List Operation} (read : readStreams unfilter p.streams = some operations) :
    readStreams unfilter (p.visit visit).streams =
      some (List.replicate (p.leavesBracket visit).toNat saveOperation ++ operations) := by
  obtain ⟨saves, streams, count, areSaves⟩ := streams_of_not_stores append leaves
  have readSaves := readStreams_saves brackets areSaves
  have readEmpty : readStreams unfilter [.empty] = some [] :=
    (readStreams_singleton empties).trans (readOperations_instructions [])
  rw [streams, List.append_assoc, readStreams_append readSaves, readStreams_append read, readEmpty, count]
  simp

theorem reads_of_stores (brackets : OpensBrackets unfilter) (appends : p.AppendsBalanced unfilter visit)
    (stores : p.stores visit = true) {count : Nat} {operations : List Operation}
    (read : readStreams unfilter p.streams = some operations) (leaves : LeavesOpen count operations) :
    ∃ after, readStreams unfilter (p.visit visit).streams = some after ∧ LeavesOpen count after := by
  have draws := appends.draws stores
  obtain ⟨body, readBody, balanced⟩ := draws.balanced
  have further : LeavesOpen 0 body := leavesOpen_zero_iff.mpr balanced
  -- The stream of the session is put behind the content as it is.
  have unbracketed {stream : Stream} (opening : p.opening visit.script.options = [])
      (isIn : (p.content visit.script).IsIn stream) :
      ∃ after, readStreams unfilter (p.streams ++ [stream]) = some after ∧ LeavesOpen count after := by
    have drawn := draws.read isIn
    rw [opening, List.nil_append, readBody] at drawn
    refine ⟨operations ++ body, ?_, leaves.append further⟩
    rw [readStreams_append read, drawn]
    rfl
  have left := leaves_of_close (close_of_stores stores)
  generalize (p.visit visit).streams = streams at left
  cases left with
  | @bracketed first stream reset opening save isIn =>
    have drawn := draws.read isIn
    rw [opening, readOperations_opened body readBody] at drawn
    refine ⟨saveOperation :: operations ++ [restoreOperation] ++ body, ?_, leaves.bracket.append further⟩
    rw [List.cons_append, readStreams_save brackets save, readStreams_append read, drawn]
    simp
  | extended append noReset opening isIn => exact unbracketed opening isIn
  | replaced replaces opening isIn =>
    -- There was nothing to keep, so its stream is behind that as well.
    have unchanged := unbracketed opening isIn
    rwa [replaces appends.append] at unchanged

/-- Whatever becomes of the session, the brackets that are left open are those that were, and its own if it
leaves it. -/
theorem reads_visit (brackets : OpensBrackets unfilter) (empties : unfilter .empty = some [])
    (appends : p.AppendsBalanced unfilter visit) {count : Nat} {operations : List Operation}
    (read : readStreams unfilter p.streams = some operations) (leaves : LeavesOpen count operations) :
    ∃ after, readStreams unfilter (p.visit visit).streams = some after ∧
      LeavesOpen (count + (p.leavesBracket visit).toNat) after := by
  cases stores : p.stores visit with
  | true =>
    have whole : p.leavesBracket visit = false := by simp [leavesBracket, stores]
    rw [whole]
    exact reads_of_stores brackets appends stores read leaves
  | false =>
    refine ⟨_, reads_of_not_stores brackets empties appends.append stores read, ?_⟩
    rw [Nat.add_comm]
    exact (LeavesOpen.saves _).append leaves

theorem reads_visitAll (brackets : OpensBrackets unfilter) (empties : unfilter .empty = some [])
    {visits : List Visit} (appends : p.EveryVisit (AppendsBalanced unfilter) visits) {count : Nat}
    {operations : List Operation} (read : readStreams unfilter p.streams = some operations)
    (leaves : LeavesOpen count operations) :
    ∃ after, readStreams unfilter (p.visitAll visits).streams = some after ∧
      LeavesOpen (count + p.bracketsLeft visits) after := by
  induction visits generalizing p count operations with
  | nil => exact ⟨operations, read, leaves⟩
  | cons visit rest inductionHypothesis =>
    obtain ⟨appendsFirst, appendsRest⟩ := appends
    obtain ⟨next, readNext, leavesNext⟩ := reads_visit brackets empties appendsFirst read leaves
    obtain ⟨after, readAfter, leavesAfter⟩ := inductionHypothesis appendsRest readNext leavesNext
    rw [Nat.add_assoc] at leavesAfter
    exact ⟨after, readAfter, leavesAfter⟩

theorem readsBalanced_iff {operations : List Operation}
    (read : readStreams unfilter p.streams = some operations) :
    p.ReadsBalanced unfilter ↔ IsBalanced operations := by
  constructor
  · rintro ⟨same, readSame, balanced⟩
    cases read.symm.trans readSame
    exact balanced
  · exact fun balanced => ⟨operations, read, balanced⟩

/-- After every run of sessions on a balanced page, no `Q` is without its `q`, and so many `q` are without
their `Q` as sessions left their bracket open: the page is balanced if and only if none did. Any session that
is given up, or is to be closed inside a text object, adds this one `q` or no operation at all. -/
theorem unclosed_sessions_leave_their_brackets_open (brackets : OpensBrackets unfilter)
    (empties : unfilter .empty = some []) (balanced : p.ReadsBalanced unfilter) {visits : List Visit}
    (appends : p.EveryVisit (AppendsBalanced unfilter) visits) :
    ∃ operations, readStreams unfilter (p.visitAll visits).streams = some operations ∧
      LeavesOpen (p.bracketsLeft visits) operations ∧
      ((p.visitAll visits).ReadsBalanced unfilter ↔ p.bracketsLeft visits = 0) ∧
      ∀ visit, visit.script.options.append = true →
        visit.givesUp = true ∨
          ((p.visitAll visits).drawn visit).content.state.graphics.inText = true →
        readStreams unfilter ((p.visitAll visits).visit visit).streams =
          some (List.replicate ((p.visitAll visits).leavesBracket visit).toNat saveOperation ++
            operations) := by
  obtain ⟨before, readBefore, balancedBefore⟩ := balanced
  obtain ⟨operations, read, leaves⟩ :=
    reads_visitAll brackets empties appends readBefore (leavesOpen_zero_iff.mpr balancedBefore)
  rw [Nat.zero_add] at leaves
  refine ⟨operations, read, leaves, ?_, ?_⟩
  · rw [readsBalanced_iff read, leaves.isBalanced_iff]
  · intro visit append unclosed
    exact reads_of_not_stores brackets empties append (stores_eq_false_iff.mpr unclosed) read

/-! ## A page with two brackets open -/

/-- A page with a path that paints nothing. -/
def idlePage : Page := ⟨some (.single idle), none⟩

/-- Gives up the session without a call. -/
def abandoned : Visit := ⟨⟨⟨true, false, true⟩, ⟨[]⟩, 6, []⟩, true⟩

/-- Is to be closed inside a text object. -/
def leftInText : Visit := ⟨⟨⟨true, false, true⟩, ⟨[]⟩, 6, [.beginText]⟩, false⟩

theorem reads_idlePage : readStreams unlimitedContent idlePage.streams = some [⟨[], "n"⟩] :=
  (readStreams_singleton rfl).trans (readOperations_instructions [⟨[], .endPath⟩])

theorem readsBalanced_idlePage : idlePage.ReadsBalanced unlimitedContent :=
  (readsBalanced_iff reads_idlePage).mpr (.single (by decide) (by decide))

theorem two_brackets_are_left_open :
    ∃ operations,
      readStreams unlimitedContent
        (idlePage.visitAll [⟨bracketedFill, false⟩, abandoned, leftInText]).streams = some operations ∧
      LeavesOpen 2 operations := by
  have fill : IsBalanced [⟨[], "f"⟩] := .single (by decide) (by decide)
  have appendsFill : idlePage.AppendsBalanced unlimitedContent ⟨bracketedFill, false⟩ :=
    ⟨rfl, fun _ => ⟨⟨_, readOperations_body _ (by decide), fill⟩,
      opensBy_unlimitedContent fun deflated => by simp [content, bracketedFill] at deflated⟩⟩
  have appends : idlePage.EveryVisit (AppendsBalanced unlimitedContent)
      [⟨bracketedFill, false⟩, abandoned, leftInText] :=
    ⟨appendsFill, ⟨rfl, fun stores => Bool.noConfusion stores⟩,
      ⟨rfl, fun stores => Bool.noConfusion stores⟩, trivial⟩
  obtain ⟨operations, read, leaves, -⟩ := unclosed_sessions_leave_their_brackets_open
    opensBrackets_unlimitedContent rfl readsBalanced_idlePage appends
  exact ⟨operations, read, leaves⟩

theorem idle_page_is_left_unbalanced :
    idlePage.ReadsBalanced unlimitedContent ∧
      ∀ visit ∈ [abandoned, leftInText], visit.script.options.append = true ∧
        idlePage.stores visit = false ∧ ¬(idlePage.visit visit).ReadsBalanced unlimitedContent := by
  refine ⟨readsBalanced_idlePage, ?_⟩
  have unbalanced (visit : Visit) (append : visit.script.options.append = true)
      (leaves : idlePage.stores visit = false) (bracket : idlePage.leavesBracket visit = true) :
      ¬(idlePage.visit visit).ReadsBalanced unlimitedContent := by
    have read := reads_of_not_stores opensBrackets_unlimitedContent rfl append leaves reads_idlePage
    rw [readsBalanced_iff read, bracket]
    intro balanced
    exact absurd balanced.even (by decide)
  simp only [List.forall_mem_cons]
  exact ⟨⟨rfl, rfl, unbalanced abandoned rfl rfl rfl⟩,
    ⟨rfl, rfl, unbalanced leftInText rfl rfl rfl⟩, List.forall_mem_nil _⟩

end Page

end PdfCanvas
