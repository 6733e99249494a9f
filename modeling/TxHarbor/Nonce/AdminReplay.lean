import TxHarbor.Nonce.Committed

open Relational Tx

namespace TxHarbor.Nonce

open List Sample

/-! A second run under a recorded operation id: the digest in the audit row decides between a replay and a conflict. -/

/-- The op-input, a line for each field. The subject is the hold, the binding or the sender, by the action. -/
def AdminRequest.lines (r : AdminRequest) : List String :=
  [r.action.text, toString r.chainID, r.sender, r.subjectID, r.observationID, r.operator, r.reason, r.evidence]

/-- What is hashed: the lines, each ended by a line break. -/
def AdminRequest.joined (r : AdminRequest) : String := String.join (r.lines.map (· ++ "\n"))

namespace Sample

/-- A registration with the given texts. -/
def registration (reason evidence : String) : AdminRequest :=
  { adminRequest .registryRegister "op-1" "" "" with reason, evidence }

def registered (reason evidence : String) : World :=
  after [.admin (view "" "") env (mint "") .none (registration reason evidence)]

/-- The run of a registration on what the first one left. -/
def rerun (reason evidence : String) (w : World) : AdminReturn × Store :=
  adminRun (view "" "") env (mint "") .none (registration reason evidence) w.store

end Sample

variable {first req : AdminRequest} {env env₀ : Environment} {mint mint₀ : Mint} {s s' : Store} {row : AdminAudit}
  {obs₀ : Observation} {view : ChainView} {out out₀ : AdminTxOutcome}

theorem auditInputDigestOf_recorded {digest detail : String} (h : ';' ∉ digest.toList) :
    auditInputDigestOf (auditInputPrefix ++ digest ++ "; " ++ detail) = digest := by
  have hdigest : (digest.toList ++ ';' :: ' ' :: detail.toList).takeWhile (· != ';') = digest.toList := by
    rw [takeWhile_append_of_pos fun c hc => by simpa using fun heq : c = ';' => h (heq ▸ hc)]
    simp
  simp [auditInputDigestOf, isPrefixOf_iff_prefix, hdigest]

/-- The row of a committed attempt. -/
theorem adminAttemptInTx_recorded (h : adminAttemptInTx env mint first obs₀ s = .ok (out, s')) :
    ∃ row ∈ s'.audit.rows, row.operationID = first.operationID ∧
      (row.outcome = out.outcome ∧ row.action = first.action ∧ row.subjectID = first.subjectID) ∧
      ∃ detail, row.detail = auditInputPrefix ++ adminInputDigest env first ++ "; " ++ detail := by
  simp only [adminAttemptInTx, insertAuditTx, eq_ok] at h
  obtain ⟨_, s₁, -, _, _, ⟨_, _, ⟨rfl, rfl⟩, audit, _, ⟨hinsert, rfl⟩, rfl⟩, rfl, rfl⟩ := h
  have hmem := (Table.insert?_eq_some hinsert).2 ▸ mem_append_right _ (mem_singleton.mpr rfl)
  exact ⟨_, hmem, rfl, ⟨rfl, rfl, rfl⟩, _, rfl⟩

/-- A second run of a recorded operation is rolled back and answered from the recorded row, unless its action fails. -/
theorem adminRun_recorded (view : ChainView) (env : Environment) (mint : Mint) (hvalid : req.validate = .ok ())
    (hrow : row ∈ s.audit.rows) (hid : row.operationID = req.operationID) :
    (∃ err, adminInTx env mint req (observe req.toScope .reconcile view) s = .error err) ∧
        adminRun view env mint .none req s = (.refused (storageRefusal "admin transaction failed"), s) ∨
      adminRun view env mint .none req s = (replayRecorded env req s, s) := by
  have hbody : adminAttemptInTx env mint req (observe req.toScope .reconcile view) s =
      (adminInTx env mint req (observe req.toScope .reconcile view) s).bind fun p =>
        (insertAuditTx env req p.1 >>= fun _ => pure p.1) p.2 := rfl
  simp only [adminRun, hvalid, attempt, hbody]
  cases hrun : adminInTx env mint req (observe req.toScope .reconcile view) s with
  | error err =>
    by_cases hconflict : auditOperationIDConflict err = true
    · exact .inr (by simp [Except.bind, settleAdmin, hconflict])
    · exact .inl ⟨⟨err, rfl⟩, by simp [Except.bind, settleAdmin, hconflict]⟩
  | ok p =>
    refine .inr ?_
    have hinsert : (insertAuditTx env req p.1 >>= fun _ => pure p.1) p.2 =
        .error (.violation .opsAuditOperationIDUniq) := by
      change ((demand _ (p.2.audit.insert? _) >>= fun audit => set { p.2 with audit } : NonceTx Unit) >>= fun _ =>
        pure p.1) p.2 = _
      cases hinsert : p.2.audit.insert? _ with
      | none => rfl
      | some audit =>
        -- the recorded row is still there after the action, so the insert meets its operation id
        have hfree := (Table.insert?_eq_some hinsert).1 row ((adminInTx_effect hrun).grows.audit hrow)
        simp [Constrained.clash, hid] at hfree
    simp only [Except.bind, hinsert]
    rfl

end TxHarbor.Nonce
