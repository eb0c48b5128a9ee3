import Xul.Foundation.Runs
import Xul.Net.Http.HttpClient

/-!
# Requests in the background

`background_http_requester_impl` makes a client for every request and keeps it in a collection until
its callback.  `post` enters the client before it looks at the URL, and a URL that cannot be parsed
ends it there, with no request whose callback would take the client out again.  `notify` leaves that
to the client, which calls back for such a URL too.  So the collection is the one of the clients
whose callback is to come as long as all posted URLs can be parsed (`holdsPending_iff`).
-/

set_option autoImplicit false

namespace Xul

open Foundation

namespace BackgroundHttpRequester

/-- A request that a client has accepted, by the address of the client. -/
structure Request where
  client : Nat
  urlstr : Bytes
  query : HttpQuery
  contentType : Bytes

end BackgroundHttpRequester

open BackgroundHttpRequester in
/-- `background_http_requester_impl`, by the addresses of its clients, and the requests whose
callback is still to come.  The headers that all requests share are left out. -/
structure BackgroundHttpRequester where
  clients : List Nat
  requests : List Request

namespace BackgroundHttpRequester

def create : BackgroundHttpRequester := ⟨[], []⟩

/-- `m_clients[client.get()] = client` -/
def createClient (client : Nat) (requester : BackgroundHttpRequester) : BackgroundHttpRequester :=
  { requester with clients := requester.clients ++ [client] }

/-- The client takes a request on. -/
def accept (request : Request) (requester : BackgroundHttpRequester) : BackgroundHttpRequester :=
  { requester with requests := requester.requests ++ [request] }

/-- `post`, with the client that it returns, and the address at which that is made. -/
def post (client : Nat) (url body contentType : Bytes) (requester : BackgroundHttpRequester) :
    Option Nat × BackgroundHttpRequester :=
  let requester := requester.createClient client
  let u := SimpleUri.parse (cStr url)
  if u.1 = false then (none, requester)
  else
    (some client,
      requester.accept ⟨client, cStr u.2.originalString, .postData 4096 body, contentType⟩)

/-- `notify`; the client calls back for a URL that cannot be parsed, too. -/
def notify (client : Nat) (url : Bytes) (requester : BackgroundHttpRequester) :
    Option Nat × BackgroundHttpRequester :=
  (some client,
    (requester.createClient client).accept ⟨client, cStr url, .downloadData 4096, []⟩)

def onCallback (sender : Nat) (requester : BackgroundHttpRequester) : BackgroundHttpRequester :=
  { requester with clients := requester.clients.filter (· ≠ sender) }

inductive Event
  | post (client : Nat) (url body contentType : Bytes)
  | notify (client : Nat) (url : Bytes)
  | callback (sender : Nat)

/-- A client that is kept is at no address of a new one, and every request is called back once. -/
def step (requester : BackgroundHttpRequester) : Event → Option BackgroundHttpRequester
  | .post client url body contentType =>
      if client ∈ requester.clients then none
      else some (requester.post client url body contentType).2
  | .notify client url =>
      if client ∈ requester.clients then none else some (requester.notify client url).2
  | .callback sender =>
      if sender ∈ requester.requests.map Request.client then
        let requests := requester.requests.eraseP fun request => request.client = sender
        some ({ requester with requests }.onCallback sender)
      else none

/-! ## What the collection holds -/

/-- The clients that are kept are those whose callback is still to come. -/
def HoldsPending (requester : BackgroundHttpRequester) : Prop :=
  ∀ client, client ∈ requester.clients ↔ client ∈ requester.requests.map Request.client

/-- A call that returns null leaves the collection as it was. -/
def LeavesOnNull (requester : BackgroundHttpRequester) : Event → Prop
  | .post client url body contentType =>
      (requester.post client url body contentType).1 = none →
        (requester.post client url body contentType).2.clients = requester.clients
  | .notify client url =>
      (requester.notify client url).1 = none →
        (requester.notify client url).2.clients = requester.clients
  | .callback _ => True

/-- A URL that is posted can be parsed. -/
def PostsValid : Event → Prop
  | .post _ url _ _ => (SimpleUri.parse (cStr url)).1 = true
  | .notify _ _ | .callback _ => True

/-- Every client is kept for one request. -/
structure Sound (requester : BackgroundHttpRequester) : Prop where
  holds : requester.HoldsPending
  distinct : (requester.requests.map Request.client).Nodup

variable {requester next : BackgroundHttpRequester}

theorem sound_create : create.Sound := ⟨fun _ => Iff.rfl, List.nodup_nil⟩

theorem post_of_parsed {url : Bytes} (parsed : (SimpleUri.parse (cStr url)).1 = true)
    (requester : BackgroundHttpRequester) (client : Nat) (body contentType : Bytes) :
    requester.post client url body contentType =
      (some client,
        (requester.createClient client).accept
          ⟨client, cStr (SimpleUri.parse (cStr url)).2.originalString, .postData 4096 body,
            contentType⟩) := by
  rw [post, parsed]
  exact if_neg Bool.false_ne_true.symm

theorem post_of_refused {url : Bytes} (refused : (SimpleUri.parse (cStr url)).1 = false)
    (requester : BackgroundHttpRequester) (client : Nat) (body contentType : Bytes) :
    requester.post client url body contentType = (none, requester.createClient client) := by
  rw [post, if_pos refused]

/-- A new client with its request. -/
theorem Sound.accept (sound : requester.Sound) (request : Request)
    (new : request.client ∉ requester.clients) :
    ((requester.createClient request.client).accept request).Sound := by
  have notAsked : request.client ∉ requester.requests.map Request.client := fun asked =>
    new ((sound.holds _).mpr asked)
  constructor
  · intro client
    simp [BackgroundHttpRequester.accept, createClient, sound.holds client]
  · rw [BackgroundHttpRequester.accept, createClient, List.map_append, List.map_singleton,
      ← List.concat_eq_append]
    exact sound.distinct.concat notAsked

/-- **A step with a valid URL**, if any, keeps a client for each request. -/
theorem sound_step (sound : requester.Sound) {event : Event} (valid : PostsValid event)
    (happens : requester.step event = some next) : next.Sound := by
  cases event with
  | post client url body contentType =>
      rw [step, Option.ite_none_left_eq_some] at happens
      obtain ⟨new, happens⟩ := happens
      obtain rfl := Option.some.inj happens
      rw [post_of_parsed valid]
      exact sound.accept ⟨client, _, _, _⟩ new
  | notify client url =>
      rw [step, Option.ite_none_left_eq_some] at happens
      obtain ⟨new, happens⟩ := happens
      obtain rfl := Option.some.inj happens
      exact sound.accept ⟨client, _, _, _⟩ new
  | callback sender =>
      rw [step, Option.ite_none_right_eq_some] at happens
      obtain ⟨-, happens⟩ := happens
      obtain rfl := Option.some.inj happens
      have asked : (requester.requests.eraseP fun request => request.client = sender).map
          Request.client = (requester.requests.map Request.client).erase sender := by
        rw [List.erase_eq_eraseP, List.eraseP_map]
        simp [Function.comp_def, beq_eq_decide, eq_comm]
      constructor
      · intro client
        simp only [onCallback, asked, sound.distinct.mem_erase_iff, List.mem_filter,
          sound.holds client, decide_eq_true_eq, and_comm]
      · simp only [onCallback, asked]
        exact sound.distinct.erase sender

/-- A client is left over by a URL that cannot be parsed. -/
theorem not_holdsPending_of_invalid (sound : requester.Sound) {event : Event}
    (invalid : ¬ PostsValid event) (happens : requester.step event = some next) :
    ¬ next.HoldsPending := by
  cases event with
  | notify client url => exact absurd trivial invalid
  | callback sender => exact absurd trivial invalid
  | post client url body contentType =>
      rw [step, Option.ite_none_left_eq_some] at happens
      obtain ⟨new, happens⟩ := happens
      obtain rfl := Option.some.inj happens
      have refused : (SimpleUri.parse (cStr url)).1 = false := Bool.eq_false_of_not_eq_true invalid
      rw [post_of_refused refused]
      intro holds
      have kept := (holds client).mp (List.mem_append_right _ (List.mem_singleton_self _))
      exact new ((sound.holds client).mpr kept)

theorem leavesOnNull_of_valid (requester : BackgroundHttpRequester) {event : Event}
    (valid : PostsValid event) : requester.LeavesOnNull event := by
  cases event with
  | post client url body contentType =>
      intro null
      rw [post_of_parsed valid] at null
      cases null
  | notify client url =>
      intro null
      cases null
  | callback sender => trivial

/-- **The clients that are kept are those whose callback is to come**, in every state of a run, and
calls that return null leave them as they were, as long as every URL that is posted can be
parsed. -/
theorem holdsPending_iff (events : List Event) :
    (Throughout step HoldsPending create events ∧
        Guarded step LeavesOnNull create events) ↔
      Guarded step (fun _ => PostsValid) create events := by
  have throughout : Throughout step HoldsPending create events ↔
      Guarded step (fun _ => PostsValid) create events :=
    throughout_iff_guarded (fun _ sound => sound.holds)
      (fun _ _ _ sound valid happens => sound_step sound valid happens)
      (fun _ _ _ sound invalid happens => not_holdsPending_of_invalid sound invalid happens)
      sound_create
  rw [throughout, and_iff_left_iff_imp]
  intro valid
  exact valid.imp_of_invariant
    (fun _ _ _ sound valid happens => sound_step sound valid happens)
    (fun requester _ _ valid => requester.leavesOnNull_of_valid valid) sound_create

/-- A URL whose port is no number. -/
def badPort : Bytes := ascii "http://a:x/"

theorem not_holdsPending_badPort :
    ¬ (Throughout step HoldsPending create [.post 1 badPort [] []] ∧
      Guarded step LeavesOnNull create [.post 1 badPort [] []]) := by
  rintro ⟨-, leaves⟩
  have refused : (SimpleUri.parse (cStr badPort)).1 = false := by decide +kernel
  have result : create.post 1 badPort [] [] = (none, ⟨[1], []⟩) := post_of_refused refused _ _ _ _
  have new : 1 ∉ create.clients := List.not_mem_nil
  have happens : create.step (.post 1 badPort [] []) = some ⟨[1], []⟩ := by
    rw [step, if_neg new, result]
  obtain ⟨same, -⟩ := leaves _ happens
  rw [LeavesOnNull, result] at same
  exact absurd (same rfl) (List.cons_ne_nil _ _)

end BackgroundHttpRequester

end Xul
