import Sha3Kernel.AbstractHasher
import Sha3Kernel.Calls
import Sha3Kernel.Collisions
import Sha3Kernel.Ct
import Sha3Kernel.DigestSerde
import Sha3Kernel.Hex
import Sha3Kernel.KeccakBits
import Sha3Kernel.LargeFileIntegrity
import Sha3Kernel.Merging
import Sha3Kernel.ObservedHex
import Sha3Kernel.ObservedKeccak
import Sha3Kernel.Padding
import Sha3Kernel.Permutations
import Sha3Kernel.Reader
import Sha3Kernel.Residue
import Sha3Kernel.StaleBytes
import Sha3Kernel.StateSerde
