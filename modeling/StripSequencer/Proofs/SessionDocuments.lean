import StripSequencer.LanguageServer.Message

/-!
# `StripSequencer.Proofs.SessionDocuments` — stored texts and published diagnostics stay in step

Requests over any number of documents come in any order: documents are opened twice, changed without being open,
closed without being open, changed by empty lists or by ranges, and the session is started and shut down in
between. What the session stores of a document, and what it published last for it, is still determined by the
last request that was accepted and had a say in it.

## Contents
- `Request.assigns?`: what a request makes of a document; `Session.accepted`, `Session.assignments`.
- `Session.serve`: a run of requests, with what is published along it.
- `Concerns`, `handle_concerns`, `handle_of_rejected`: one request; `serve_document?`, `serve_published`,
  `serve_ready`: a run.
- `understood?`, `receiveAll_eq_serve`: messages, of which those that are not understood have no effect.
- `Framework.standard_lawful`; `InStep`, `session_in_step`: with every lawful framework.
-/

namespace StripSequencer.LanguageServer

/-! ## What requests say of documents -/

/-- What a request makes of the text of a document, if it has a say in it; a document that is closed has no text.
Of the changes of a document only the last one counts, and only if it is whole. -/
def Request.assigns? (uri : String) : Request → Option (Option Text)
  | .didOpen u text => if u = uri then some (some text) else none
  | .didChange u changes =>
    match changes.getLast? with
    | some (.whole text) => if u = uri then some (some text) else none
    | _ => none
  | .didClose u => if u = uri then some none else none
  | _ => none

/-- The request begins or ends the time in which requests are answered. -/
def Request.isLifecycle : Request → Bool
  | .start | .shutdown => true
  | _ => false

theorem Method.name_eq_start_iff {m : Method} : m.name = Method.start.name ↔ m = .start := by
  cases m <;> decide

theorem Request.method_eq_start_iff {r : Request} : r.method = .start ↔ r = .start := by
  cases r <;> simp [Request.method]

/-- The session was started, and was not shut down since. -/
def Awake (requests : List Request) : Prop :=
  (requests.filter Request.isLifecycle).getLast? = some .start

/-- The diagnostics of a document with the given text, or of one that is closed. -/
def diagnosticsOf (capacity : Int) : Option Text → List Diagnostic
  | some text => diagnose capacity text
  | none => []

/-- The diagnostics of a document that were published last. -/
def lastPublished (uri : String) (published : List Publication) : Option (List Diagnostic) :=
  (published.filter (·.uri = uri)).getLast?.map Publication.diagnostics

namespace Session

/-- The session after requests, and what it published along them, in order. -/
def serve (f : Framework) (s : Session) : List Request → Session × List Publication
  | [] => (s, [])
  | r :: requests =>
    let rest := (s.handle f r).session.serve f requests
    (rest.1, (s.handle f r).published ++ rest.2)

/-- The requests that are answered, in order. -/
def accepted (f : Framework) (s : Session) : List Request → List Request
  | [] => []
  | r :: requests =>
    if (s.handle f r).reply.isSome then r :: (s.handle f r).session.accepted f requests
    else (s.handle f r).session.accepted f requests

/-- What the accepted requests made of a document, in order. -/
def assignments (f : Framework) (s : Session) (uri : String) (requests : List Request) : List (Option Text) :=
  (s.accepted f requests).filterMap (Request.assigns? uri)

/-! ## Documents -/

theorem lookup_filter_self (uri : String) (documents : List (String × Text)) :
    (documents.filter (·.1 ≠ uri)).lookup uri = none := by
  rw [List.lookup_eq_none_iff]
  intro d hd
  have hne : d.1 ≠ uri := by simpa using (List.mem_filter.mp hd).2
  simpa using hne.symm

theorem lookup_filter_of_ne {u uri : String} (h : u ≠ uri) (documents : List (String × Text)) :
    (documents.filter (·.1 ≠ u)).lookup uri = documents.lookup uri := by
  induction documents with
  | nil => rfl
  | cons d documents ih =>
    obtain ⟨name, text⟩ := d
    by_cases hname : name = u
    · -- the entry that is taken out is not the one that is looked for
      subst hname
      have hother : (uri == name) = false := by simpa using h.symm
      rw [List.filter_cons_of_neg (by simp), ih, List.lookup_cons, hother]
    · rw [List.filter_cons_of_pos (by simpa using hname), List.lookup_cons, List.lookup_cons, ih]

theorem document?_setDocument (s : Session) (u uri : String) (text : Text) :
    (s.setDocument u text).document? uri = if u = uri then some text else s.document? uri := by
  unfold setDocument document?
  by_cases h : u = uri
  · subst h
    simp
  · have hother : (uri == u) = false := by simpa using Ne.symm h
    rw [if_neg h, List.lookup_cons, hother]
    exact lookup_filter_of_ne h s.documents

theorem document?_dropDocument (s : Session) (u uri : String) :
    (s.dropDocument u).document? uri = if u = uri then none else s.document? uri := by
  unfold dropDocument document?
  by_cases h : u = uri
  · subst h
    rw [if_pos rfl]
    exact lookup_filter_self u s.documents
  · rw [if_neg h]
    exact lookup_filter_of_ne h s.documents

/-! ## One request -/

end Session

/-- What a request comes to, seen from one document: its text after the request, and what is published for it. -/
structure Concerns (s : Session) (uri : String) (assigned : Option (Option Text)) (h : Handled) : Prop where
  capacity : h.session.capacity = s.capacity
  stored : h.session.document? uri = assigned.getD (s.document? uri)
  published : h.published.filter (·.uri = uri)
    = (assigned.map fun text => ⟨uri, diagnosticsOf s.capacity text⟩).toList

namespace Session

variable {s : Session} {uri : String}

/-- A request that has no say in any document. -/
theorem concerns_none {h : Handled} (hcapacity : h.session.capacity = s.capacity)
    (hdocuments : h.session.documents = s.documents) (hpublished : h.published = []) :
    Concerns s uri none h where
  capacity := hcapacity
  stored := by
    unfold document?
    rw [hdocuments]
    rfl
  published := by
    rw [hpublished]
    rfl

/-- A document gets a text. -/
theorem concerns_store (s : Session) (u uri : String) (text : Text) :
    Concerns s uri (if u = uri then some (some text) else none) (s.store u text) := by
  refine ⟨rfl, ?_, ?_⟩
  · show (s.setDocument u text).document? uri = _
    rw [document?_setDocument]
    by_cases h : u = uri
    · rw [if_pos h, if_pos h]
      rfl
    · rw [if_neg h, if_neg h]
      rfl
  · by_cases h : u = uri
    · subst h
      simp [store, diagnosticsOf]
    · simp [store, h]

/-- A document is closed. -/
theorem concerns_close (s : Session) (u uri : String) :
    Concerns s uri (if u = uri then some none else none) (s.answer (.didClose u)) := by
  refine ⟨rfl, ?_, ?_⟩
  · show (s.dropDocument u).document? uri = _
    rw [document?_dropDocument]
    by_cases h : u = uri
    · rw [if_pos h, if_pos h]
      rfl
    · rw [if_neg h, if_neg h]
      rfl
  · by_cases h : u = uri
    · subst h
      simp [answer, diagnosticsOf]
    · simp [answer, h]

/-- **One request that is answered.** -/
theorem answer_concerns (s : Session) (uri : String) (r : Request) :
    Concerns s uri (r.assigns? uri) (s.answer r) := by
  cases r with
  | start | started | setTrace | shutdown | completion | hover => exact concerns_none rfl rfl rfl
  | didOpen u text => exact concerns_store s u uri text
  | didClose u => exact concerns_close s u uri
  | didChange u changes =>
    unfold answer Request.assigns?
    dsimp only
    cases changes.getLast? with
    | none => exact concerns_none rfl rfl rfl
    | some change =>
      cases change with
      | whole text => exact concerns_store s u uri text
      | ranged => exact concerns_none rfl rfl rfl

/-- Every request that is looked at has an answer. -/
theorem answer_reply_isSome (s : Session) (r : Request) : (s.answer r).reply.isSome = true := by
  cases r with
  | didChange u changes =>
    unfold answer
    dsimp only
    split
    · rfl
    · rfl
  | _ => rfl

variable {f : Framework}

/-- The session as the framework counts it after a method. -/
def counted (f : Framework) (ready : Bool) (m : Method) (s : Session) : Session :=
  { s with ready := f.readyAfter ready m }

theorem handle_of_admitted {r : Request} (h : f.admits s.ready r.method.name = true) :
    s.handle f r
      = ⟨(s.answer r).session.counted f s.ready r.method, (s.answer r).reply, (s.answer r).published⟩ := by
  unfold handle
  rw [if_pos h]
  rfl

theorem reply_of_admitted {r : Request} (h : f.admits s.ready r.method.name = true) :
    (s.handle f r).reply.isSome = true := by
  rw [handle_of_admitted h]
  exact s.answer_reply_isSome r

/-- **Requests that are rejected** change nothing and publish nothing. -/
theorem handle_of_rejected {r : Request} (h : f.admits s.ready r.method.name = false) :
    s.handle f r = ⟨s, none, []⟩ := by
  unfold handle
  rw [if_neg (by rw [h]; decide)]

/-- A request is rejected exactly if it is not let in. -/
theorem reply_eq_none_iff_not_admitted (f : Framework) (s : Session) (r : Request) :
    (s.handle f r).reply = none ↔ f.admits s.ready r.method.name = false := by
  cases hadmits : f.admits s.ready r.method.name with
  | false => simp [handle_of_rejected hadmits]
  | true =>
    have hsome := reply_of_admitted hadmits
    simp only [Bool.true_eq_false, iff_false]
    intro hnone
    rw [hnone] at hsome
    cases hsome

/-- **One request that is accepted.** -/
theorem handle_concerns {r : Request} (h : (s.handle f r).reply.isSome = true) (uri : String) :
    Concerns s uri (r.assigns? uri) (s.handle f r) := by
  cases hadmits : f.admits s.ready r.method.name with
  | false =>
    rw [handle_of_rejected hadmits] at h
    cases h
  | true =>
    -- the framework's count of starts and shutdowns has no part in the documents
    have hanswer := answer_concerns s uri r
    rw [handle_of_admitted hadmits]
    exact ⟨hanswer.capacity, hanswer.stored, hanswer.published⟩

section Lawful

variable (hf : f.Lawful)
include hf

theorem reply_eq_none_iff (s : Session) (r : Request) :
    (s.handle f r).reply = none ↔ r ≠ .start ∧ s.ready = false := by
  rw [reply_eq_none_iff_not_admitted]
  cases hready : s.ready with
  | true => simp [hf.admits_ready]
  | false =>
    by_cases hr : r = .start
    · subst hr
      simp [hf.admits_start, Request.method]
    · have hname : r.method.name ≠ Method.start.name := by
        rwa [ne_eq, Method.name_eq_start_iff, Request.method_eq_start_iff]
      simp [hf.admits_unready _ hname, hr]

/-- Only the start and the shutdown of a session have to do with whether it is ready. -/
theorem handle_ready (s : Session) (r : Request) :
    (s.handle f r).session.ready = if r.isLifecycle then decide (r = .start) else s.ready := by
  cases hadmits : f.admits s.ready r.method.name with
  | false =>
    have hnone := (reply_eq_none_iff_not_admitted f s r).mpr hadmits
    obtain ⟨hr, hready⟩ := (reply_eq_none_iff hf s r).mp hnone
    rw [handle_of_rejected hadmits, hready, decide_eq_false hr, ite_self]
  | true =>
    rw [handle_of_admitted hadmits]
    cases r with
    | start => exact hf.ready_start _
    | shutdown => exact hf.ready_shutdown _
    | _ => exact hf.ready_other _ _ (by rintro ⟨⟩) (by rintro ⟨⟩)

end Lawful

/-! ## Runs of requests -/

/-- A request that is rejected has no part in the rest of a run. -/
theorem assignments_cons_of_rejected {r : Request} (h : (s.handle f r).reply = none) (uri : String)
    (requests : List Request) : s.assignments f uri (r :: requests) = s.assignments f uri requests := by
  have hadmits := (reply_eq_none_iff_not_admitted f s r).mp h
  unfold assignments
  rw [accepted, handle_of_rejected hadmits]
  rfl

theorem assignments_cons_of_accepted {r : Request} (h : (s.handle f r).reply.isSome = true) (uri : String)
    (requests : List Request) :
    s.assignments f uri (r :: requests)
      = (r.assigns? uri).toList ++ (s.handle f r).session.assignments f uri requests := by
  unfold assignments
  rw [accepted, if_pos h, List.filterMap_cons]
  cases r.assigns? uri with
  | none => rfl
  | some text => rfl

/-- **The stored text** is what the last accepted request that has a say in the document made of it. By induction
on the run: a later request comes before an earlier one, and that one before the text at the start. -/
theorem serve_document? (f : Framework) (s : Session) (uri : String) (requests : List Request) :
    (s.serve f requests).1.document? uri = (s.assignments f uri requests).getLast?.getD (s.document? uri) := by
  induction requests generalizing s with
  | nil => rfl
  | cons r requests ih =>
    show ((s.handle f r).session.serve f requests).1.document? uri = _
    rw [ih]
    cases hreply : (s.handle f r).reply with
    | none =>
      have hadmits := (reply_eq_none_iff_not_admitted f s r).mp hreply
      rw [assignments_cons_of_rejected hreply, handle_of_rejected hadmits]
    | some reply =>
      have haccepted : (s.handle f r).reply.isSome = true := by rw [hreply]; rfl
      rw [assignments_cons_of_accepted haccepted, (handle_concerns haccepted uri).stored, List.getLast?_append]
      cases r.assigns? uri with
      | none => simp
      | some text => cases ((s.handle f r).session.assignments f uri requests).getLast? <;> rfl

theorem lastPublished_append (uri : String) (earlier later : List Publication) :
    lastPublished uri (earlier ++ later) = (lastPublished uri later).or (lastPublished uri earlier) := by
  unfold lastPublished
  rw [List.filter_append, List.getLast?_append, Option.map_or]

/-- **What was published last** are the diagnostics of what the same request made of the document. -/
theorem serve_published (f : Framework) (s : Session) (uri : String) (requests : List Request) :
    lastPublished uri (s.serve f requests).2
      = (s.assignments f uri requests).getLast?.map (diagnosticsOf s.capacity) := by
  induction requests generalizing s with
  | nil => rfl
  | cons r requests ih =>
    show lastPublished uri ((s.handle f r).published ++ ((s.handle f r).session.serve f requests).2) = _
    rw [lastPublished_append, ih]
    cases hreply : (s.handle f r).reply with
    | none =>
      have hadmits := (reply_eq_none_iff_not_admitted f s r).mp hreply
      rw [assignments_cons_of_rejected hreply, handle_of_rejected hadmits]
      exact Option.or_none
    | some reply =>
      have haccepted : (s.handle f r).reply.isSome = true := by rw [hreply]; rfl
      have hconcerns := handle_concerns haccepted uri
      have hnow : lastPublished uri (s.handle f r).published
          = (r.assigns? uri).map (diagnosticsOf s.capacity) := by
        unfold lastPublished
        rw [hconcerns.published]
        cases r.assigns? uri with
        | none => rfl
        | some text => rfl
      rw [assignments_cons_of_accepted haccepted, hnow, hconcerns.capacity, List.getLast?_append, Option.map_or]
      cases r.assigns? uri with
      | none => rfl
      | some text => rfl

/-- **Whether a session is ready** is decided by the last of its starts and shutdowns. -/
theorem serve_ready (hf : f.Lawful) (s : Session) (requests : List Request) :
    (s.serve f requests).1.ready
      = ((requests.filter Request.isLifecycle).getLast?.map (fun r => decide (r = .start))).getD s.ready := by
  induction requests generalizing s with
  | nil => rfl
  | cons r requests ih =>
    show ((s.handle f r).session.serve f requests).1.ready = _
    rw [ih, handle_ready hf]
    by_cases hr : r.isLifecycle = true
    · rw [List.filter_cons_of_pos hr, if_pos hr, List.getLast?_cons]
      cases (requests.filter Request.isLifecycle).getLast? with
      | none => rfl
      | some last => rfl
    · rw [List.filter_cons_of_neg hr, if_neg hr]

/-- A new session is ready if it was started and not shut down since. -/
theorem serve_ready_iff (hf : f.Lawful) (capacity : Int) (requests : List Request) :
    (Session.serve f { capacity } requests).1.ready = true ↔ Awake requests := by
  rw [serve_ready hf]
  unfold Awake
  cases (requests.filter Request.isLifecycle).getLast? with
  | none => simp
  | some last => simp

/-! ## Runs of messages -/

end Session

/-- The request that a message makes, if it names a method and its parameters can be read. -/
def understood? (f : Framework) (message : String × Option Json) : Option Request :=
  (Method.ofName? message.1).bind fun m => f.request? m message.2

namespace Session

variable {f : Framework}

/-- The session after messages, and what it published along them, in order. -/
def receiveAll (f : Framework) (s : Session) : List (String × Option Json) → Session × List Publication
  | [] => (s, [])
  | (method, params) :: messages =>
    let rest := (s.receive f method params).session.receiveAll f messages
    (rest.1, (s.receive f method params).published ++ rest.2)

theorem name_of_ofName? {name : String} {m : Method} (h : Method.ofName? name = some m) : m.name = name := by
  simpa using List.find?_some h

/-- A message that is not understood has no effect. -/
theorem receive_of_not_understood {method : String} {params : Option Json}
    (h : understood? f (method, params) = none) (s : Session) :
    (s.receive f method params).session = s ∧ (s.receive f method params).published = [] := by
  unfold receive
  unfold understood? at h
  split
  · exact ⟨rfl, rfl⟩
  · cases hmethod : Method.ofName? method with
    | none => exact ⟨rfl, rfl⟩
    | some m =>
      rw [hmethod] at h
      have hrequest : f.request? m params = none := h
      dsimp only
      rw [hrequest]
      exact ⟨rfl, rfl⟩

/-- A message that is understood does what its request does. -/
theorem receive_of_understood (hf : f.Lawful) {method : String} {params : Option Json} {r : Request}
    (h : understood? f (method, params) = some r) (s : Session) :
    (s.receive f method params).session = (s.handle f r).session
      ∧ (s.receive f method params).published = (s.handle f r).published := by
  obtain ⟨m, hmethod, hrequest⟩ := Option.bind_eq_some_iff.mp h
  have hname : r.method.name = method := by
    rw [hf.request_method m params r hrequest]
    exact name_of_ofName? hmethod
  unfold receive
  cases hadmits : f.admits s.ready method with
  | false =>
    rw [handle_of_rejected (by rwa [hname])]
    exact ⟨rfl, rfl⟩
  | true =>
    have hmatch : Method.ofName? method = some m := hmethod
    rw [if_neg (by decide), hmatch]
    dsimp only
    rw [hrequest]
    dsimp only
    cases (s.handle f r).reply with
    | none => exact ⟨rfl, rfl⟩
    | some reply => exact ⟨rfl, rfl⟩

/-- **Messages come down to the requests that are understood.** -/
theorem receiveAll_eq_serve (hf : f.Lawful) (s : Session) (messages : List (String × Option Json)) :
    s.receiveAll f messages = s.serve f (messages.filterMap (understood? f)) := by
  induction messages generalizing s with
  | nil => rfl
  | cons message messages ih =>
    obtain ⟨method, params⟩ := message
    rw [receiveAll, List.filterMap_cons]
    cases hunderstood : understood? f (method, params) with
    | none =>
      obtain ⟨hsession, hpublished⟩ := receive_of_not_understood hunderstood s
      rw [hsession, hpublished, ih]
      rfl
    | some r =>
      obtain ⟨hsession, hpublished⟩ := receive_of_understood hf hunderstood s
      rw [hsession, hpublished, ih]
      rfl

end Session

/-! ## The session in step with its documents -/

/-- **What a run of requests leaves,** from a new session on, with what it published along it. -/
structure InStep (f : Framework) (capacity : Int) (requests : List Request) (s : Session)
    (published : List Publication) : Prop where
  /-- The stored text of a document is that of the last accepted request that has a say in it; there is none if
  that request closed the document, or if there is no such request. -/
  stored : ∀ uri, s.document? uri = (Session.assignments f { capacity } uri requests).getLast?.join
  /-- The diagnostics that were published last are those of the stored text, and none for a closed document. Nothing
  was published for a document that no accepted request had a say in. -/
  diagnosed : ∀ uri, lastPublished uri published
    = (Session.assignments f { capacity } uri requests).getLast?.map fun _ => diagnosticsOf capacity (s.document? uri)
  /-- Requests are rejected before the start and after a shutdown, and no others. -/
  rejected : ∀ r, (s.handle f r).reply = none ↔ r ≠ .start ∧ ¬Awake requests
  /-- A request that is rejected changes and publishes nothing. -/
  inert : ∀ r, (s.handle f r).reply = none → s.handle f r = ⟨s, none, []⟩
  /-- Hovers depend on the stored text and the position only, and change nothing. -/
  hover : Awake requests → ∀ uri p, s.handle f (.hover uri p)
    = ⟨s, some (.hover ((s.document? uri).bind (hover? · p))), []⟩
  /-- So do completions. -/
  completion : Awake requests → ∀ uri p, s.handle f (.completion uri p)
    = ⟨s, some (.completions (((s.document? uri).map (completions · p)).getD [])), []⟩

namespace Session

variable {f : Framework}

/-- A question that a session in use is asked: the handler answers, and the session stays what it is. -/
theorem handle_of_question (hf : f.Lawful) {s : Session} (h : s.ready = true) {r : Request}
    (hlifecycle : r.isLifecycle = false) (hkept : (s.answer r).session = s) : s.handle f r = s.answer r := by
  have hadmits : f.admits s.ready r.method.name = true := by
    rw [h]
    exact hf.admits_ready _
  have hready := handle_ready hf s r
  rw [hlifecycle, if_neg (by decide), handle_of_admitted hadmits, hkept] at hready
  have hcounted : s.counted f s.ready r.method = s := by
    have hfield : f.readyAfter s.ready r.method = s.ready := hready
    unfold counted
    rw [hfield]
  calc s.handle f r
      = ⟨s, (s.answer r).reply, (s.answer r).published⟩ := by rw [handle_of_admitted hadmits, hkept, hcounted]
    _ = ⟨(s.answer r).session, (s.answer r).reply, (s.answer r).published⟩ := by rw [hkept]
    _ = s.answer r := rfl

end Session

theorem Framework.standard_lawful : Framework.standard.Lawful where
  admits_start ready := by simp [standard]
  admits_ready method := rfl
  admits_unready method h := by simp [standard, h]
  ready_start ready := rfl
  ready_shutdown ready := rfl
  ready_other ready m hstart hshutdown := by
    cases m with
    | start => exact absurd rfl hstart
    | shutdown => exact absurd rfl hshutdown
    | _ => rfl
  request_method m params r h := by
    obtain ⟨-, hrequest⟩ := Option.ite_none_right_eq_some.mp h
    obtain rfl := Option.some.inj hrequest
    cases m with
    | _ => rfl

/-- **A session stays in step with its documents**, with the framework that checks shapes and with every other lawful
one. After every run of requests, and after every run of messages, of which only those count that are understood. -/
theorem session_in_step :
    Framework.standard.Lawful
      ∧ ∀ f : Framework, f.Lawful → ∀ capacity : Int,
        (∀ requests, InStep f capacity requests (Session.serve f { capacity } requests).1
            (Session.serve f { capacity } requests).2)
          ∧ ∀ messages, Session.receiveAll f { capacity } messages
              = Session.serve f { capacity } (messages.filterMap (understood? f)) := by
  refine ⟨Framework.standard_lawful, ?_⟩
  intro f hf capacity
  refine ⟨?_, Session.receiveAll_eq_serve hf _⟩
  intro requests
  have hready := Session.serve_ready_iff hf capacity requests
  have hstored : ∀ uri, (Session.serve f { capacity } requests).1.document? uri
      = (Session.assignments f { capacity } uri requests).getLast?.join := by
    intro uri
    rw [Session.serve_document?]
    cases (Session.assignments f { capacity } uri requests).getLast? <;> rfl
  refine ⟨hstored, ?_, ?_, ?_, ?_, ?_⟩
  · intro uri
    rw [hstored, Session.serve_published]
    cases (Session.assignments f { capacity } uri requests).getLast? <;> rfl
  · intro r
    rw [Session.reply_eq_none_iff hf, ← hready, Bool.not_eq_true]
  · intro r hnone
    exact Session.handle_of_rejected ((Session.reply_eq_none_iff_not_admitted f _ r).mp hnone)
  · intro hawake uri p
    exact Session.handle_of_question hf (hready.mpr hawake) rfl rfl
  · intro hawake uri p
    exact Session.handle_of_question hf (hready.mpr hawake) rfl rfl

/-- A document that is opened too early, then opened and changed, by a range at last, and closed after the shutdown,
which comes too late. -/
theorem session_in_step_across_shutdown :
    ∃ requests s published, requests = [.didOpen "a" (Text.ofString "all 1 2 3"), .start,
          .didOpen "a" (Text.ofString "clear"), .didChange "a" [.ranged, .whole (Text.ofString "delay 2")],
          .didChange "a" [.whole (Text.ofString "clear"), .ranged], .didClose "b", .shutdown, .didClose "a"]
      ∧ Framework.standard.Lawful
      ∧ Session.serve .standard { capacity := 1 } requests = (s, published)
      ∧ InStep .standard 1 requests s published
      ∧ s.document? "a" = some (Text.ofString "delay 2")
      ∧ lastPublished "a" published = some (diagnose 1 (Text.ofString "delay 2"))
      ∧ lastPublished "b" published = some []
      ∧ (s.handle .standard (.hover "a" ⟨0, 0⟩)).reply = none := by
  obtain ⟨requests, hrequests⟩ : ∃ requests : List Request, requests = [.didOpen "a" (Text.ofString "all 1 2 3"), .start,
      .didOpen "a" (Text.ofString "clear"), .didChange "a" [.ranged, .whole (Text.ofString "delay 2")],
      .didChange "a" [.whole (Text.ofString "clear"), .ranged], .didClose "b", .shutdown, .didClose "a"] := ⟨_, rfl⟩
  have h := (session_in_step.2 .standard Framework.standard_lawful 1).1 requests
  have hstored : (Session.serve .standard { capacity := 1 } requests).1.document? "a"
      = some (Text.ofString "delay 2") := by
    rw [h.stored, hrequests]
    rfl
  have hasleep : ¬ Awake requests := by
    rw [hrequests]
    rintro ⟨⟩
  refine ⟨requests, _, _, hrequests, Framework.standard_lawful, rfl, h, hstored, ?_, ?_, ?_⟩
  · rw [h.diagnosed, hstored, hrequests]
    rfl
  · rw [h.diagnosed, h.stored, hrequests]
    rfl
  · exact (h.rejected _).mpr ⟨by rintro ⟨⟩, hasleep⟩

end StripSequencer.LanguageServer
