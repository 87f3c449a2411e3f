import DecryptorNode.Proofs.Curve.LogPairing
import DecryptorNode.Proofs.Keys.KeyReadings

/-! The two checks of what a secret key makes accept exactly that: the encodings of the secret
multiple of the hashed point, and neither the neutral point nor anything that is no point. The
checks are taken with any pairing in the place of the computed one: that it is one is all that they
ask of it. -/
namespace DecryptorNode.Keys
open Curve (G1 G2 Fp12 IsPairing groupOrder logPairing)

section Checks
variable {pairing : G1 → G2 → Fp12} {publicKey proof message : Bytes} {epoch : EpochId}

/-- The check of an epoch's key on encoded values. What does not decode does not verify. -/
def verifyEpochKeyBy (pairing : G1 → G2 → Fp12) (publicKey key : Bytes) (epoch : EpochId) : Bool :=
  match EonPublicKey.ofBytes publicKey, EpochSecretKey.ofBytes key with
  | .ok eon, .ok key => key.verifyBy pairing eon epoch
  | _, _ => false

/-- What both checks ask, whether the neutral point is refused where it is read or where the
pairings are compared. -/
def Passes (pairing : G1 → G2 → Fp12) (hashed : G1) (publicKey proof : Bytes) : Prop :=
  ∃ q p, G2.decode publicKey = .ok q ∧ q ≠ .infinity ∧ G1.decode proof = .ok p ∧ p ≠ .infinity ∧
    pairing p G2.generator = pairing hashed q

private theorem verifySignatureBy_iff : verifySignatureBy pairing publicKey proof message = true ↔
    Passes pairing (messagePoint message) publicKey proof := by
  unfold verifySignatureBy
  constructor
  · intro h
    split at h
    · rename_i key signature readKey readSignature
      obtain ⟨decodedKey, finiteKey⟩ := BlsPublicKey.ofBytes_eq_ok.mp readKey
      obtain ⟨decoded, finite⟩ := BlsSignature.ofBytes_eq_ok.mp readSignature
      exact ⟨_, _, decodedKey, finiteKey, decoded, finite, of_decide_eq_true h⟩
    · cases h
  · rintro ⟨q, p, decodedKey, finiteKey, decoded, finite, same⟩
    have readKey : BlsPublicKey.ofBytes publicKey = .ok ⟨q⟩ :=
      BlsPublicKey.ofBytes_eq_ok.mpr ⟨decodedKey, finiteKey⟩
    have readSignature : BlsSignature.ofBytes proof = .ok ⟨p⟩ :=
      BlsSignature.ofBytes_eq_ok.mpr ⟨decoded, finite⟩
    rw [readKey, readSignature]
    exact decide_eq_true same

private theorem EpochSecretKey.verifyBy_iff {key : EpochSecretKey} {eon : EonPublicKey} :
    key.verifyBy pairing eon epoch = true ↔
      key.point ≠ .infinity ∧ pairing key.point G2.generator = pairing epoch.point eon.point := by
  rw [verifyBy, Bool.and_eq_true, decide_eq_true_iff, Bool.not_eq_true', ← Bool.not_eq_true,
    Curve.Point.isInfinity_iff]

private theorem verifyEpochKeyBy_iff : verifyEpochKeyBy pairing publicKey proof epoch = true ↔
    Passes pairing epoch.point publicKey proof := by
  unfold verifyEpochKeyBy
  constructor
  · intro h
    split at h
    · rename_i eon key readEon readKey
      obtain ⟨decodedKey, finiteKey⟩ := EonPublicKey.ofBytes_eq_ok.mp readEon
      obtain ⟨finite, same⟩ := EpochSecretKey.verifyBy_iff.mp h
      exact ⟨_, _, decodedKey, finiteKey, EpochSecretKey.ofBytes_eq_ok.mp readKey, finite, same⟩
    · cases h
  · rintro ⟨q, p, decodedKey, finiteKey, decoded, finite, same⟩
    have readEon : EonPublicKey.ofBytes publicKey = .ok ⟨q⟩ :=
      EonPublicKey.ofBytes_eq_ok.mpr ⟨decodedKey, finiteKey⟩
    have readKey : EpochSecretKey.ofBytes proof = .ok ⟨p⟩ :=
      EpochSecretKey.ofBytes_eq_ok.mpr decoded
    rw [readEon, readKey]
    exact EpochSecretKey.verifyBy_iff.mpr ⟨finite, same⟩

/-- Only the secret multiple of a point pairs with the generator as the point pairs with the
secret's public key. -/
private theorem pairs_iff (bilinear : IsPairing pairing) {hashed p : G1}
    (order : hashed.HasGroupOrder G1.constant) (curved : p.OnCurve G1.constant)
    (secret : SecretKey) :
    p ≠ .infinity ∧ pairing p G2.generator = pairing hashed secret.publicPoint ↔
      p = Curve.Point.times secret.scalar hashed := by
  have same := bilinear.check_iff curved order.curved secret.scalar
  constructor
  · intro h
    exact same.mp h.2
  · rintro rfl
    exact ⟨(order.times secret.positive secret.bounded).finite, same.mpr rfl⟩

/-- Under a secret's public key one point alone passes. -/
private theorem passes_iff (bilinear : IsPairing pairing) {hashed : G1}
    (order : hashed.HasGroupOrder G1.constant) (secret : SecretKey) :
    Passes pairing hashed (G2.encode secret.publicPoint) proof ↔
      G1.decode proof = .ok (Curve.Point.times secret.scalar hashed) := by
  constructor
  · rintro ⟨q, p, decodedKey, -, decoded, finite, same⟩
    rw [secret.decode_publicPoint] at decodedKey
    cases decodedKey
    rw [(pairs_iff bilinear order (G1.onCurve_of_decode decoded) secret).mp ⟨finite, same⟩]
      at decoded
    exact decoded
  · intro decoded
    have curved := (order.times secret.positive secret.bounded).curved
    obtain ⟨finite, same⟩ := (pairs_iff bilinear order curved secret).mpr rfl
    exact ⟨_, _, secret.decode_publicPoint, secret.hasGroupOrder_publicPoint.finite, decoded,
      finite, same⟩

/-- What a check of proofs under public keys never accepts: a key or a proof that is the neutral
point, no point or empty. -/
structure Refuses (check : Bytes → Bytes → Bool) : Prop where
  key : ∀ key proof, (∀ q, G2.decode key = .ok q → q = .infinity) → check key proof = false
  proof : ∀ key proof, (∀ p, G1.decode proof = .ok p → p = .infinity) → check key proof = false
  empty : ∀ bytes, check [] bytes = false ∧ check bytes [] = false

private theorem refuses_of_passes {check : Bytes → Bytes → Bool} {hashed : G1}
    (checks : ∀ {key proof}, check key proof = true ↔ Passes pairing hashed key proof) :
    Refuses check := by
  have refuses_key : ∀ key proof, (∀ q, G2.decode key = .ok q → q = .infinity) →
      check key proof = false := by
    intro key proof neutral
    refine Bool.eq_false_iff.mpr fun accepted => ?_
    obtain ⟨q, _, decoded, finite, -⟩ := checks.mp accepted
    exact finite (neutral q decoded)
  have refuses_proof : ∀ key proof, (∀ p, G1.decode proof = .ok p → p = .infinity) →
      check key proof = false := by
    intro key proof neutral
    refine Bool.eq_false_iff.mpr fun accepted => ?_
    obtain ⟨_, p, -, -, decoded, finite, -⟩ := checks.mp accepted
    exact finite (neutral p decoded)
  refine ⟨refuses_key, refuses_proof, fun bytes => ⟨refuses_key [] bytes ?_, ?_⟩⟩
  · exact fun q decoded => by cases decoded
  · exact refuses_proof bytes [] fun p decoded => by cases decoded

variable {secret : SecretKey} {key : EpochSecretKey}

private theorem verifySignatureBy_ofSecret (bilinear : IsPairing pairing)
    (finite : messagePoint message ≠ .infinity) :
    verifySignatureBy pairing (BlsPublicKey.ofSecret secret).toBytes proof message = true ↔
      BlsSignature.ofBytes proof = .ok (.sign secret message) := by
  have order := hasGroupOrder_messagePoint finite
  have multiple := order.times secret.positive secret.bounded
  have decodes :
      verifySignatureBy pairing (BlsPublicKey.ofSecret secret).toBytes proof message = true ↔
        G1.decode proof = .ok (Curve.Point.times secret.scalar (messagePoint message)) :=
    verifySignatureBy_iff.trans (passes_iff bilinear order secret)
  rw [BlsSignature.ofBytes_eq_ok]
  exact decodes.trans (and_iff_left multiple.finite).symm

private theorem EpochSecretKey.verifyBy_ofSecret (bilinear : IsPairing pairing)
    (finite : epoch.point ≠ .infinity) (curved : key.point.OnCurve G1.constant) :
    key.verifyBy pairing (.ofSecret secret) epoch = true ↔ key = .release secret epoch := by
  obtain ⟨p⟩ := key
  have pairs := pairs_iff bilinear (epoch.hasGroupOrder_point finite) curved secret
  rw [verifyBy_iff]
  constructor
  · intro accepted
    exact congrArg mk (pairs.mp accepted)
  · intro released
    exact pairs.mpr (mk.inj released)

end Checks

/-! Both checks as the node runs them, with the pairing that it computes. -/
section Computed
variable {secret : SecretKey} {proof message : Bytes} {epoch : EpochId} {key : EpochSecretKey}

/-- The check of signatures takes the one that the secret makes and no other. -/
theorem verifySignature_iff (bilinear : IsPairing Curve.pairing)
    (finite : messagePoint message ≠ .infinity) :
    verifySignature (BlsPublicKey.ofSecret secret).toBytes proof message = true ↔
      BlsSignature.ofBytes proof = .ok (.sign secret message) :=
  verifySignatureBy_ofSecret bilinear finite

/-- The check of epoch keys takes the one that the eon's secret releases and no other. -/
theorem EpochSecretKey.verify_iff (bilinear : IsPairing Curve.pairing)
    (finite : epoch.point ≠ .infinity) (read : EpochSecretKey.ofBytes proof = .ok key) :
    key.verify (.ofSecret secret) epoch = true ↔ key = .release secret epoch :=
  verifyBy_ofSecret bilinear finite (G1.onCurve_of_decode (ofBytes_eq_ok.mp read))

/-- Whatever it is that is computed, neither check takes the neutral point or what is no point. -/
theorem refuses_computed :
    (∀ message, Refuses fun key proof => verifySignature key proof message) ∧
    ∀ (eon : EonPublicKey) (epoch : EpochId),
      EpochSecretKey.verify ⟨.infinity⟩ eon epoch = false := by
  refine ⟨fun message => refuses_of_passes verifySignatureBy_iff, fun eon epoch => ?_⟩
  rw [← Bool.not_eq_true, EpochSecretKey.verify, EpochSecretKey.verifyBy_iff]
  exact fun accepted => accepted.1 rfl

end Computed

/-- A secret is read from every number that the group order does not divide. What it makes is read
back, and either check accepts the encodings of the secret multiple of the hashed point alone. The
neutral point passes no check, nor does anything that is no point. -/
theorem key_checks_exact {pairing : G1 → G2 → Fp12} (bilinear : IsPairing pairing)
    (bytes : Bytes) :
    (SecretKey.ofBytes bytes = .error .zeroScalar ↔ groupOrder ∣ Bytes.toNat bytes) ∧
    (¬ groupOrder ∣ Bytes.toNat bytes → ∃ secret, SecretKey.ofBytes bytes = .ok secret ∧
      secret.scalar = Bytes.toNat bytes % groupOrder ∧
      BlsPublicKey.ofBytes (BlsPublicKey.ofSecret secret).toBytes = .ok (.ofSecret secret) ∧
      EonPublicKey.ofBytes (EonPublicKey.ofSecret secret).toBytes = .ok (.ofSecret secret) ∧
      (∀ message, messagePoint message ≠ .infinity →
        BlsSignature.ofBytes (BlsSignature.sign secret message).toBytes =
          .ok (.sign secret message) ∧
        ∀ proof,
          verifySignatureBy pairing (BlsPublicKey.ofSecret secret).toBytes proof message = true ↔
            G1.decode proof = .ok (Curve.Point.times secret.scalar (messagePoint message))) ∧
      ∀ epoch : EpochId, epoch.point ≠ .infinity →
        EpochSecretKey.ofBytes (EpochSecretKey.release secret epoch).toBytes =
          .ok (.release secret epoch) ∧
        ∀ proof,
          verifyEpochKeyBy pairing (EonPublicKey.ofSecret secret).toBytes proof epoch = true ↔
            G1.decode proof = .ok (Curve.Point.times secret.scalar epoch.point)) ∧
    (∀ message, Refuses fun key proof => verifySignatureBy pairing key proof message) ∧
    ∀ epoch, Refuses fun key proof => verifyEpochKeyBy pairing key proof epoch := by
  refine ⟨SecretKey.ofBytes_eq_error_iff, fun indivisible => ?_,
    fun message => refuses_of_passes verifySignatureBy_iff,
    fun epoch => refuses_of_passes verifyEpochKeyBy_iff⟩
  obtain ⟨secret, read, scalar⟩ := SecretKey.exists_ofBytes indivisible
  have readKey := secret.decode_publicPoint
  have finiteKey := secret.hasGroupOrder_publicPoint.finite
  refine ⟨secret, read, scalar, BlsPublicKey.ofBytes_eq_ok.mpr ⟨readKey, finiteKey⟩,
    EonPublicKey.ofBytes_eq_ok.mpr ⟨readKey, finiteKey⟩, fun message finite => ?_,
    fun epoch finite => ?_⟩
  · have order := hasGroupOrder_messagePoint finite
    have multiple := order.times secret.positive secret.bounded
    exact ⟨BlsSignature.ofBytes_eq_ok.mpr
      ⟨G1.decode_encode_of_hasGroupOrder multiple, multiple.finite⟩,
      fun proof => verifySignatureBy_iff.trans (passes_iff bilinear order secret)⟩
  · have order := epoch.hasGroupOrder_point finite
    have multiple := order.times secret.positive secret.bounded
    exact ⟨EpochSecretKey.ofBytes_eq_ok.mpr (G1.decode_encode_of_hasGroupOrder multiple),
      fun proof => verifyEpochKeyBy_iff.trans (passes_iff bilinear order secret)⟩

/-- The point that stands for the message of one zero byte. -/
def samplePoint : G1 :=
  .affine 3537755162749006633390276325944164713817194448792259595191583355323061184030
    4990742817363582480414724068731584907017810123375860355589254533154895012474

/-- The value of the chain at the sample point and the generator. -/
def sampleChain : Fp12 :=
  ⟨⟨⟨8759178112095252395973125382346331743687106988891326015632889651091715218617,
     19993310017915156093944468283423583262750608648065090955189449534422896248153⟩,
    ⟨16245673337149419972882839043733591193586440708142161643440242195026153271162,
     5872485649490219318136745197610544660843356764758064785672518187382803764577⟩,
    ⟨19134702059484787501697485357392672930054470910007896394769453202114308155642,
     10949312606710997668076816131993379305793378344089663920641746349360457235619⟩⟩,
   ⟨⟨9282741929503789914100237379006170747076118066288124162669910424304542878206,
     15766672805247929459126618607505682827522155109518559820246021936985639866430⟩,
    ⟨1253496052254457949253746273724495705314942282723704375272312587070607483909,
     1286012953951420978861074186933089193251391230877291708384787450143672479768⟩,
    ⟨18291632060987815781503449261406838890743317979088860483099901725625149561242,
     11210262816638471779917948798339913044244987794952094098684958042555511733723⟩⟩⟩

/-- The power of the chain's value by the cheap factors. -/
def sampleBase : Fp12 :=
  ⟨⟨⟨9451648578652287328398883490538542792633295948719008001408553187777371000643,
     7116040383066403837069606923569442526362691747948604289146301188026546577616⟩,
    ⟨17484805747788806750626172231818776723508542736723004020199390829453821655253,
     7206014098140916005590548946269795160160994385024177075219426872405984711330⟩,
    ⟨7680846113951811710849703647509534636177958020932144263624256553029402091086,
     2397287286262531484365758162138246512995201577392072098288890547712572577027⟩⟩,
   ⟨⟨21260883209048272952845231813468046773239306816782792348565059031531822554869,
     16540203160912462669663173125522869655110300854552503881768502943101748002109⟩,
    ⟨5781216863723930093341552959580179613171704435159935356062180630662871591406,
     13399613264581591737423830557630225469082896548372699535898732427691670640914⟩,
    ⟨643512379688087185358166030034398343561487690947866189241381607991019380792,
     8320414177173777618245542234633277401542557086107961927411304727730329241306⟩⟩⟩

def sampleValue : Fp12 :=
  ⟨⟨⟨20379408741532759195789770765325992015605788411459486958110867586244591716936,
     2332144615874366838596736417049864069978110953972877296316295755747773593040⟩,
    ⟨21347875105468464615243912548931368954563197872592559593241237363783010871190,
     4897531292283713892101403279206841227950596639785020319724179533246522796840⟩,
    ⟨14511600167863496053559654900955124676378616153882752739117012871715079628438,
     5501190495976206818497580278295191254830649158556441935802829296374254189477⟩⟩,
   ⟨⟨18663302486296632947123680473700643528369375809582099257050680779270794196018,
     15944674172019675388081019740585826491219506989177983317185471225541462810558⟩,
    ⟨20921038020302941017465579406411857955320373474286458606073561014688308136285,
     16480938016709766016571564336616557902119010413451508957156521838302130161249⟩,
    ⟨5576942840349330918541982311381209999805971934691505219265004903380130412943,
     3190351523236702299783029896191729160305277049172383044653707331259402126804⟩⟩⟩

private theorem messagePoint_sample : messagePoint [0] = samplePoint := by decide +kernel

set_option maxRecDepth 4000 in
private theorem ateValue_sample : Curve.ateValue samplePoint G2.generator = sampleChain := by
  decide +kernel

set_option maxRecDepth 4000 in
private theorem power_sample : Curve.power sampleBase Curve.hardExponent = sampleValue := by
  decide +kernel

/-- The pairing takes the sample point to a root of one of the group order. -/
private theorem pairing_sample : Curve.pairing samplePoint G2.generator = sampleValue := by
  have easy : Curve.easyPower sampleChain = sampleBase := by decide +kernel
  rw [Curve.pairing_eq (by simp [samplePoint]) G2.hasGroupOrder_generator.finite,
    ateValue_sample, easy, power_sample]

private theorem order_sample : Curve.power sampleValue groupOrder = 1 ∧ sampleValue ≠ 1 := by
  decide +kernel

private theorem hasGroupOrder_sample : samplePoint.HasGroupOrder G1.constant :=
  G1.hasGroupOrder (by decide +kernel) (by simp [samplePoint])

private theorem point_zero : (EpochId.ofNat 0).point ≠ .infinity :=
  Curve.hashToCurve_ne_infinity (by decide +kernel)

/-- The pairing by logarithms that agrees with the computed one where secret one signs the message
of one zero byte. -/
theorem key_checks_exact_one :
    let pairing := logPairing samplePoint sampleValue
    pairing (messagePoint [0]) G2.generator =
      Curve.pairing (messagePoint [0]) G2.generator ∧
    IsPairing pairing ∧ ¬ groupOrder ∣ Bytes.toNat [1] ∧
    messagePoint [0] ≠ .infinity ∧ (EpochId.ofNat 0).point ≠ .infinity ∧
    ∃ secret, SecretKey.ofBytes [1] = .ok secret ∧ secret.scalar = 1 ∧
      (∀ proof, verifySignatureBy pairing (BlsPublicKey.ofSecret secret).toBytes proof [0] = true ↔
        G1.decode proof = .ok (messagePoint [0])) ∧
      ∀ proof, verifyEpochKeyBy pairing (EonPublicKey.ofSecret secret).toBytes proof (.ofNat 0) =
        true ↔ G1.decode proof = .ok (EpochId.ofNat 0).point := by
  intro pairing
  have order : sampleValue ^ groupOrder = 1 := (Curve.power_eq_pow _ _).symm.trans order_sample.1
  have bilinear : IsPairing pairing :=
    Curve.isPairing_logPairing hasGroupOrder_sample order order_sample.2
  have agrees : pairing (messagePoint [0]) G2.generator =
      Curve.pairing (messagePoint [0]) G2.generator := by
    rw [messagePoint_sample, pairing_sample]
    exact Curve.logPairing_base hasGroupOrder_sample order
  have finite : messagePoint [0] ≠ .infinity := by
    rw [messagePoint_sample]
    exact hasGroupOrder_sample.finite
  have indivisible : ¬ groupOrder ∣ Bytes.toNat [1] := by decide
  obtain ⟨secret, read, scalar, -, -, signed, released⟩ :=
    (key_checks_exact bilinear [1]).2.1 indivisible
  have one : secret.scalar = 1 := scalar.trans (by decide)
  have signature := (signed [0] finite).2
  have key := (released (.ofNat 0) point_zero).2
  rw [one, Curve.Point.times_one] at signature key
  exact ⟨agrees, bilinear, indivisible, finite, point_zero, secret, read, one, signature, key⟩

end DecryptorNode.Keys
