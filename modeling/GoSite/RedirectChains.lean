import Mathlib

/-!
# Chains of redirects

An HTTP client follows a redirect by asking for the URL that the answer names.
Its policy sees the next URL and those it has asked for. A policy that only
counts them lets every chain through up to its limit.
-/
namespace GoSite.Http

/-- What a client needs to know about its URLs. `sendable` is what the transport
asks of a URL before it sends anything, and a policy answers with an error. -/
structure Client (U : Type*) where
  sendable : U → Bool
  resolve : U → List Char → Option U
  checkRedirect : U → List U → Option String

structure Response where
  status : ℕ
  location : List Char
  body : List UInt8
  contentLength : ℤ
  deriving Repr, DecidableEq

/-- What becomes of one request. -/
inductive Answer where
  | lost (err : String)
  | response (r : Response)
  deriving Repr, DecidableEq

/-- `redirectBehavior`, for a request without a body. -/
def isRedirect (status : ℕ) : Bool := status ∈ [301, 302, 303, 307, 308]

/-- An answer that sends the client on. -/
def Response.redirects (r : Response) : Bool := isRedirect r.status && r.location ≠ []

section
variable {U : Type*}

/-- `Client.Do` behind the requests `via`: the URLs of all requests sent, and the
last answer with the URL that it is for. -/
@[grind]
def Client.follow (c : Client U) (via : List U) (u : U) : List Answer → List U × Except String (U × Response)
  | [] => (if c.sendable u then via ++ [u] else via, .error "no answer")
  | answer :: answers =>
      if ¬ c.sendable u then (via, .error "unsupported URL")
      else
        match answer with
        | .lost err => (via ++ [u], .error err)
        | .response r =>
            if ¬ r.redirects then (via ++ [u], .ok (u, r))
            else
              match c.resolve u r.location with
              | none => (via ++ [u], .error "failed to parse Location header")
              | some next =>
                  match c.checkRedirect next (via ++ [u]) with
                  | some err => (via ++ [u], .error err)
                  | none => c.follow (via ++ [u]) next answers

/-- Where the answers lead, one URL after the other. -/
@[grind] def Client.targets (c : Client U) (u : U) : List Answer → List U
  | .response r :: answers =>
      if r.redirects then
        match c.resolve u r.location with
        | none => []
        | some next => next :: c.targets next answers
      else []
  | _ => []

/-- With a policy that only counts, all requests up to the limit are sent, as far as
the transport sends any. -/
theorem follow_sent {c : Client U} {limit : ℕ}
    (hcheck : ∀ next via, c.checkRedirect next via = none ↔ via.length < limit)
    (via : List U) (u : U) (answers : List Answer) (hvia : via.length < limit) :
    (c.follow via u answers).1 =
      via ++ ((u :: c.targets u answers).take (limit - via.length)).takeWhile c.sendable := by
  induction answers generalizing via u with
  | nil =>
      obtain ⟨k, hk⟩ : ∃ k, limit - via.length = k + 1 := ⟨limit - via.length - 1, by omega⟩
      by_cases hsend : c.sendable u <;> simp [Client.follow, Client.targets, hsend, hk]
  | cons answer answers ih =>
      obtain ⟨k, hk⟩ : ∃ k, limit - via.length = k + 1 := ⟨limit - via.length - 1, by omega⟩
      rw [hk, List.take_succ_cons]
      by_cases hsend : c.sendable u
      · rw [List.takeWhile_cons_of_pos hsend]
        cases answer with
        | lost err => simp [Client.follow, Client.targets, hsend]
        | response r =>
            by_cases hredirect : r.redirects
            · cases hnext : c.resolve u r.location with
              | none => simp [Client.follow, Client.targets, hsend, hredirect, hnext]
              | some next =>
                  have hlength : (via ++ [u]).length = via.length + 1 := by simp
                  by_cases hlimit : via.length + 1 < limit
                  · have hpass := (hcheck next (via ++ [u])).mpr (by omega)
                    have htail := ih (via ++ [u]) next (by omega)
                    have hleft : limit - (via ++ [u]).length = k := by omega
                    rw [hleft] at htail
                    simp only [Client.follow, hsend, hredirect, hnext, hpass, Client.targets]
                    simp [htail]
                  · have hstop : c.checkRedirect next (via ++ [u]) ≠ none := by
                      rw [Ne, hcheck]
                      omega
                    obtain ⟨err, herr⟩ := Option.ne_none_iff_exists'.mp hstop
                    obtain rfl : k = 0 := by omega
                    simp [Client.follow, hsend, hredirect, hnext, herr]
            · simp [Client.follow, Client.targets, hsend, hredirect]
      · rw [List.takeWhile_cons_of_neg hsend]
        simp [Client.follow, hsend]

end

end GoSite.Http
