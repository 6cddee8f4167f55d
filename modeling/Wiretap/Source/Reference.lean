/-! The language reference that is shown to users. -/

namespace Wiretap

/-- The lines of the language reference. -/
def referenceLines : List String :=
  ["Protocol syntax",
   "===============",
   "",
   "roles: Alice, Bob                      principals, in display order",
   "shared key K_AB: Alice, Bob            symmetric key and its owners",
   "public key pkB: Bob                    public half of Bob's key pair",
   "private key skB: Bob                   private half (pkX pairs with skX)",
   "nonce N_A: Alice                       fresh value generated by Alice",
   "",
   "Alice -> Bob: N_A                      a message: sender -> receiver: body",
   "Alice -> Bob: c = Enc(K_AB, M1)        name the value that goes on the wire",
   "",
   "Expressions",
   "  x || y                               concatenation (left-associative)",
   "  Enc(key, msg)                        encryption (key must be an identifier)",
   "  Mac(key, msg)                        message authentication code",
   "  Sign(sk, msg)                        signature",
   "  Vrfy(pk, msg, sig)                   signature verification (also: Verify)",
   "  Hash(msg)                            cryptographic hash",
   "",
   "Keywords are case-insensitive. Comments start with '#' or '//'.",
   "All declarations must come before the first message."]

/-- The language reference. -/
def reference : String :=
  String.join (referenceLines.map (· ++ "\n"))

end Wiretap
