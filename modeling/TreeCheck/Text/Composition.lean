/-
Canonical composition of text, which is the form that Unicode calls NFC. Two spellings of one
identifier, with a composed letter or with a letter and a combining mark, have the same composed
form, and names are compared in that form. The computation has the three steps in which Unicode
defines the form: decompose every character in full, put the combining marks of each run into the
order of their classes, and compose again from left to right. Text of seven-bit characters is its own composed
form, and no table is consulted for it.

The tables hold the full canonical decomposition of every character that has one, which of
these characters do not compose again, and the combining class of every character whose class
is not zero. Hangul syllables are left out; they follow from arithmetic. The tables are written
as hexadecimal numbers between blanks, and read once.
-/

import Std.Data.HashMap
import TreeCheck.Text.Number

namespace TreeCheck.Text.Composition

/-- Runs of characters that decompose: the distance from the end of the run before, the number of
characters, the number of parts of each, and the parts. -/
def decompositionText : String :=
"c0 6 2 41 300 41 301 41 302 41 303 41 308 41 30a 1 9 2 43 327 45 300 45 301 45 302 45 308 49 300
49 301 49 302 49 308 1 6 2 4e 303 4f 300 4f 301 4f 302 4f 303 4f 308 2 5 2 55 300 55 301 55 302 55
308 59 301 2 6 2 61 300 61 301 61 302 61 303 61 308 61 30a 1 9 2 63 327 65 300 65 301 65 302 65
308 69 300 69 301 69 302 69 308 1 6 2 6e 303 6f 300 6f 301 6f 302 6f 303 6f 308 2 5 2 75 300 75
301 75 302 75 308 79 301 1 11 2 79 308 41 304 61 304 41 306 61 306 41 328 61 328 43 301 63 301 43
302 63 302 43 307 63 307 43 30c 63 30c 44 30c 64 30c 2 14 2 45 304 65 304 45 306 65 306 45 307 65
307 45 328 65 328 45 30c 65 30c 47 302 67 302 47 306 67 306 47 307 67 307 47 327 67 327 48 302 68
302 2 9 2 49 303 69 303 49 304 69 304 49 306 69 306 49 328 69 328 49 307 3 4 2 4a 302 6a 302 4b
327 6b 327 1 6 2 4c 301 6c 301 4c 327 6c 327 4c 30c 6c 30c 4 6 2 4e 301 6e 301 4e 327 6e 327 4e
30c 6e 30c 3 6 2 4f 304 6f 304 4f 306 6f 306 4f 30b 6f 30b 2 12 2 52 301 72 301 52 327 72 327 52
30c 72 30c 53 301 73 301 53 302 73 302 53 327 73 327 53 30c 73 30c 54 327 74 327 54 30c 74 30c 2
17 2 55 303 75 303 55 304 75 304 55 306 75 306 55 30a 75 30a 55 30b 75 30b 55 328 75 328 57 302 77
302 59 302 79 302 59 308 5a 301 7a 301 5a 307 7a 307 5a 30c 7a 30c 21 2 2 4f 31b 6f 31b d 2 2 55
31b 75 31b 1c 8 2 41 30c 61 30c 49 30c 69 30c 4f 30c 6f 30c 55 30c 75 30c 0 8 3 55 308 304 75 308
304 55 308 301 75 308 301 55 308 30c 75 308 30c 55 308 300 75 308 300 1 4 3 41 308 304 61 308 304
41 307 304 61 307 304 0 2 2 c6 304 e6 304 2 6 2 47 30c 67 30c 4b 30c 6b 30c 4f 328 6f 328 0 2 3 4f
328 304 6f 328 304 0 3 2 1b7 30c 292 30c 6a 30c 3 2 2 47 301 67 301 2 2 2 4e 300 6e 300 0 2 3 41
30a 301 61 30a 301 0 20 2 c6 301 e6 301 d8 301 f8 301 41 30f 61 30f 41 311 61 311 45 30f 65 30f 45
311 65 311 49 30f 69 30f 49 311 69 311 4f 30f 6f 30f 4f 311 6f 311 52 30f 72 30f 52 311 72 311 55
30f 75 30f 55 311 75 311 53 326 73 326 54 326 74 326 2 2 2 48 30c 68 30c 6 4 2 41 307 61 307 45
327 65 327 0 4 3 4f 308 304 6f 308 304 4f 303 304 6f 303 304 0 2 2 4f 307 6f 307 0 2 3 4f 307 304
6f 307 304 0 2 2 59 304 79 304 10c 2 1 300 301 1 1 1 313 0 1 2 308 301 2f 1 1 2b9 9 1 1 3b 6 2 2
a8 301 391 301 0 1 1 b7 0 3 2 395 301 397 301 399 301 1 1 2 39f 301 1 2 2 3a5 301 3a9 301 0 1 3
3b9 308 301 19 6 2 399 308 3a5 308 3b1 301 3b5 301 3b7 301 3b9 301 0 1 3 3c5 308 301 19 5 2 3b9
308 3c5 308 3bf 301 3c5 301 3c9 301 4 2 2 3d2 301 3d2 308 2b 2 2 415 300 415 308 1 1 2 413 301 3 1
2 406 308 4 3 2 41a 301 418 300 423 306 a 1 2 418 306 1f 1 2 438 306 16 2 2 435 300 435 308 1 1 2
433 301 3 1 2 456 308 4 3 2 43a 301 438 300 443 306 17 2 2 474 30f 475 30f 49 2 2 416 306 436 306
d 4 2 410 306 430 306 410 308 430 308 2 2 2 415 306 435 306 2 6 2 4d8 308 4d9 308 416 308 436 308
417 308 437 308 2 6 2 418 304 438 304 418 308 438 308 41e 308 43e 308 2 c 2 4e8 308 4e9 308 42d
308 44d 308 423 304 443 304 423 308 443 308 423 30b 443 30b 427 308 447 308 2 2 2 42b 308 44b 308
128 5 2 627 653 627 654 648 654 627 655 64a 654 99 1 2 6d5 654 1 1 2 6c1 654 10 1 2 6d2 654 255 1
2 928 93c 7 1 2 930 93c 2 1 2 933 93c 23 8 2 915 93c 916 93c 917 93c 91c 93c 921 93c 922 93c 92b
93c 92f 93c 6b 2 2 9c7 9be 9c7 9d7 f 2 2 9a1 9bc 9a2 9bc 1 1 2 9af 9bc 53 1 2 a32 a3c 2 1 2 a38
a3c 22 3 2 a16 a3c a17 a3c a1c a3c 2 1 2 a2b a3c e9 1 2 b47 b56 2 2 2 b47 b3e b47 b57 f 2 2 b21
b3c b22 b3c 36 1 2 b92 bd7 35 3 2 bc6 bbe bc7 bbe bc6 bd7 7b 1 2 c46 c56 77 1 2 cbf cd5 6 2 2 cc6
cd5 cc6 cd6 1 1 2 cc6 cc2 0 1 3 cc6 cc2 cd5 7e 3 2 d46 d3e d47 d3e d46 d57 8d 1 2 dd9 dca 1 1 2
dd9 dcf 0 1 3 dd9 dcf dca 0 1 2 dd9 ddf 164 1 2 f42 fb7 9 1 2 f4c fb7 4 1 2 f51 fb7 4 1 2 f56 fb7
4 1 2 f5b fb7 c 1 2 f40 fb5 9 1 2 f71 f72 1 2 2 f71 f74 fb2 f80 1 1 2 fb3 f80 8 1 2 f71 f80 11 1 2
f92 fb7 9 1 2 f9c fb7 4 1 2 fa1 fb7 4 1 2 fa6 fb7 4 1 2 fab fb7 c 1 2 f90 fb5 6c 1 2 1025 102e adf
1 2 1b05 1b35 1 1 2 1b07 1b35 1 1 2 1b09 1b35 1 1 2 1b0b 1b35 1 1 2 1b0d 1b35 3 1 2 1b11 1b35 28 1
2 1b3a 1b35 1 1 2 1b3c 1b35 2 2 2 1b3e 1b35 1b3f 1b35 1 1 2 1b42 1b35 2bc 8 2 41 325 61 325 42 307
62 307 42 323 62 323 42 331 62 331 0 2 3 43 327 301 63 327 301 0 a 2 44 307 64 307 44 323 64 323
44 331 64 331 44 327 64 327 44 32d 64 32d 0 4 3 45 304 300 65 304 300 45 304 301 65 304 301 0 4 2
45 32d 65 32d 45 330 65 330 0 2 3 45 327 306 65 327 306 0 10 2 46 307 66 307 47 304 67 304 48 307
68 307 48 323 68 323 48 308 68 308 48 327 68 327 48 32e 68 32e 49 330 69 330 0 2 3 49 308 301 69
308 301 0 8 2 4b 301 6b 301 4b 323 6b 323 4b 331 6b 331 4c 323 6c 323 0 2 3 4c 323 304 6c 323 304
0 12 2 4c 331 6c 331 4c 32d 6c 32d 4d 301 6d 301 4d 307 6d 307 4d 323 6d 323 4e 307 6e 307 4e 323
6e 323 4e 331 6e 331 4e 32d 6e 32d 0 8 3 4f 303 301 6f 303 301 4f 303 308 6f 303 308 4f 304 300 6f
304 300 4f 304 301 6f 304 301 0 8 2 50 301 70 301 50 307 70 307 52 307 72 307 52 323 72 323 0 2 3
52 323 304 72 323 304 0 6 2 52 331 72 331 53 307 73 307 53 323 73 323 0 6 3 53 301 307 73 301 307
53 30c 307 73 30c 307 53 323 307 73 323 307 0 e 2 54 307 74 307 54 323 74 323 54 331 74 331 54 32d
74 32d 55 324 75 324 55 330 75 330 55 32d 75 32d 0 4 3 55 303 301 75 303 301 55 304 308 75 304 308
0 1e 2 56 303 76 303 56 323 76 323 57 300 77 300 57 301 77 301 57 308 77 308 57 307 77 307 57 323
77 323 58 307 78 307 58 308 78 308 59 307 79 307 5a 302 7a 302 5a 323 7a 323 5a 331 7a 331 68 331
74 308 77 30a 79 30a 1 1 2 17f 307 4 4 2 41 323 61 323 41 309 61 309 0 14 3 41 302 301 61 302 301
41 302 300 61 302 300 41 302 309 61 302 309 41 302 303 61 302 303 41 323 302 61 323 302 41 306 301
61 306 301 41 306 300 61 306 300 41 306 309 61 306 309 41 306 303 61 306 303 41 323 306 61 323 306
0 6 2 45 323 65 323 45 309 65 309 45 303 65 303 0 a 3 45 302 301 65 302 301 45 302 300 65 302 300
45 302 309 65 302 309 45 302 303 65 302 303 45 323 302 65 323 302 0 8 2 49 309 69 309 49 323 69
323 4f 323 6f 323 4f 309 6f 309 0 14 3 4f 302 301 6f 302 301 4f 302 300 6f 302 300 4f 302 309 6f
302 309 4f 302 303 6f 302 303 4f 323 302 6f 323 302 4f 31b 301 6f 31b 301 4f 31b 300 6f 31b 300 4f
31b 309 6f 31b 309 4f 31b 303 6f 31b 303 4f 31b 323 6f 31b 323 0 4 2 55 323 75 323 55 309 75 309 0
a 3 55 31b 301 75 31b 301 55 31b 300 75 31b 300 55 31b 309 75 31b 309 55 31b 303 75 31b 303 55 31b
323 75 31b 323 0 8 2 59 300 79 300 59 323 79 323 59 309 79 309 59 303 79 303 6 2 2 3b1 313 3b1 314
0 6 3 3b1 313 300 3b1 314 300 3b1 313 301 3b1 314 301 3b1 313 342 3b1 314 342 0 2 2 391 313 391
314 0 6 3 391 313 300 391 314 300 391 313 301 391 314 301 391 313 342 391 314 342 0 2 2 3b5 313
3b5 314 0 4 3 3b5 313 300 3b5 314 300 3b5 313 301 3b5 314 301 2 2 2 395 313 395 314 0 4 3 395 313
300 395 314 300 395 313 301 395 314 301 2 2 2 3b7 313 3b7 314 0 6 3 3b7 313 300 3b7 314 300 3b7
313 301 3b7 314 301 3b7 313 342 3b7 314 342 0 2 2 397 313 397 314 0 6 3 397 313 300 397 314 300
397 313 301 397 314 301 397 313 342 397 314 342 0 2 2 3b9 313 3b9 314 0 6 3 3b9 313 300 3b9 314
300 3b9 313 301 3b9 314 301 3b9 313 342 3b9 314 342 0 2 2 399 313 399 314 0 6 3 399 313 300 399
314 300 399 313 301 399 314 301 399 313 342 399 314 342 0 2 2 3bf 313 3bf 314 0 4 3 3bf 313 300
3bf 314 300 3bf 313 301 3bf 314 301 2 2 2 39f 313 39f 314 0 4 3 39f 313 300 39f 314 300 39f 313
301 39f 314 301 2 2 2 3c5 313 3c5 314 0 6 3 3c5 313 300 3c5 314 300 3c5 313 301 3c5 314 301 3c5
313 342 3c5 314 342 1 1 2 3a5 314 1 1 3 3a5 314 300 1 1 3 3a5 314 301 1 1 3 3a5 314 342 0 2 2 3c9
313 3c9 314 0 6 3 3c9 313 300 3c9 314 300 3c9 313 301 3c9 314 301 3c9 313 342 3c9 314 342 0 2 2
3a9 313 3a9 314 0 6 3 3a9 313 300 3a9 314 300 3a9 313 301 3a9 314 301 3a9 313 342 3a9 314 342 0 e
2 3b1 300 3b1 301 3b5 300 3b5 301 3b7 300 3b7 301 3b9 300 3b9 301 3bf 300 3bf 301 3c5 300 3c5 301
3c9 300 3c9 301 2 2 3 3b1 313 345 3b1 314 345 0 6 4 3b1 313 300 345 3b1 314 300 345 3b1 313 301
345 3b1 314 301 345 3b1 313 342 345 3b1 314 342 345 0 2 3 391 313 345 391 314 345 0 6 4 391 313
300 345 391 314 300 345 391 313 301 345 391 314 301 345 391 313 342 345 391 314 342 345 0 2 3 3b7
313 345 3b7 314 345 0 6 4 3b7 313 300 345 3b7 314 300 345 3b7 313 301 345 3b7 314 301 345 3b7 313
342 345 3b7 314 342 345 0 2 3 397 313 345 397 314 345 0 6 4 397 313 300 345 397 314 300 345 397
313 301 345 397 314 301 345 397 313 342 345 397 314 342 345 0 2 3 3c9 313 345 3c9 314 345 0 6 4
3c9 313 300 345 3c9 314 300 345 3c9 313 301 345 3c9 314 301 345 3c9 313 342 345 3c9 314 342 345 0
2 3 3a9 313 345 3a9 314 345 0 6 4 3a9 313 300 345 3a9 314 300 345 3a9 313 301 345 3a9 314 301 345
3a9 313 342 345 3a9 314 342 345 0 2 2 3b1 306 3b1 304 0 1 3 3b1 300 345 0 1 2 3b1 345 0 1 3 3b1
301 345 1 1 2 3b1 342 0 1 3 3b1 342 345 0 5 2 391 306 391 304 391 300 391 301 391 345 1 1 1 3b9 2
1 2 a8 342 0 1 3 3b7 300 345 0 1 2 3b7 345 0 1 3 3b7 301 345 1 1 2 3b7 342 0 1 3 3b7 342 345 0 a 2
395 300 395 301 397 300 397 301 397 345 1fbf 300 1fbf 301 1fbf 342 3b9 306 3b9 304 0 2 3 3b9 308
300 3b9 308 301 2 1 2 3b9 342 0 1 3 3b9 308 342 0 4 2 399 306 399 304 399 300 399 301 1 5 2 1ffe
300 1ffe 301 1ffe 342 3c5 306 3c5 304 0 2 3 3c5 308 300 3c5 308 301 0 3 2 3c1 313 3c1 314 3c5 342
0 1 3 3c5 308 342 0 7 2 3a5 306 3a5 304 3a5 300 3a5 301 3a1 314 a8 300 a8 301 0 1 1 60 2 1 3 3c9
300 345 0 1 2 3c9 345 0 1 3 3c9 301 345 1 1 2 3c9 342 0 1 3 3c9 342 345 0 5 2 39f 300 39f 301 3a9
300 3a9 301 3a9 345 0 1 1 b4 2 2 1 2002 2003 124 1 1 3a9 3 1 1 4b 0 1 2 41 30a 6e 2 2 2190 338
2192 338 12 1 2 2194 338 1e 3 2 21d0 338 21d4 338 21d2 338 34 1 2 2203 338 4 1 2 2208 338 2 1 2
220b 338 17 1 2 2223 338 1 1 2 2225 338 1a 1 2 223c 338 2 1 2 2243 338 2 1 2 2245 338 1 1 2 2248
338 16 1 2 3d 338 1 1 2 2261 338 a 5 2 224d 338 3c 338 3e 338 2264 338 2265 338 2 2 2 2272 338
2273 338 2 2 2 2276 338 2277 338 6 2 2 227a 338 227b 338 2 2 2 2282 338 2283 338 2 2 2 2286 338
2287 338 22 4 2 22a2 338 22a8 338 22a9 338 22ab 338 30 4 2 227c 338 227d 338 2291 338 2292 338 6 4
2 22b2 338 22b3 338 22b4 338 22b5 338 3b 2 1 3008 3009 7b1 1 2 2add 338 56f 1 2 304b 3099 1 1 2
304d 3099 1 1 2 304f 3099 1 1 2 3051 3099 1 1 2 3053 3099 1 1 2 3055 3099 1 1 2 3057 3099 1 1 2
3059 3099 1 1 2 305b 3099 1 1 2 305d 3099 1 1 2 305f 3099 1 1 2 3061 3099 2 1 2 3064 3099 1 1 2
3066 3099 1 1 2 3068 3099 6 2 2 306f 3099 306f 309a 1 2 2 3072 3099 3072 309a 1 2 2 3075 3099 3075
309a 1 2 2 3078 3099 3078 309a 1 2 2 307b 3099 307b 309a 16 1 2 3046 3099 9 1 2 309d 3099 d 1 2
30ab 3099 1 1 2 30ad 3099 1 1 2 30af 3099 1 1 2 30b1 3099 1 1 2 30b3 3099 1 1 2 30b5 3099 1 1 2
30b7 3099 1 1 2 30b9 3099 1 1 2 30bb 3099 1 1 2 30bd 3099 1 1 2 30bf 3099 1 1 2 30c1 3099 2 1 2
30c4 3099 1 1 2 30c6 3099 1 1 2 30c8 3099 6 2 2 30cf 3099 30cf 309a 1 2 2 30d2 3099 30d2 309a 1 2
2 30d5 3099 30d5 309a 1 2 2 30d8 3099 30d8 309a 1 2 2 30db 3099 30db 309a 16 1 2 30a6 3099 2 4 2
30ef 3099 30f0 3099 30f1 3099 30f2 3099 3 1 2 30fd 3099 c801 10e 1 8c48 66f4 8eca 8cc8 6ed1 4e32
53e5 9f9c 9f9c 5951 91d1 5587 5948 61f6 7669 7f85 863f 87ba 88f8 908f 6a02 6d1b 70d9 73de 843d
916a 99f1 4e82 5375 6b04 721b 862d 9e1e 5d50 6feb 85cd 8964 62c9 81d8 881f 5eca 6717 6d6a 72fc
90ce 4f86 51b7 52de 64c4 6ad3 7210 76e7 8001 8606 865c 8def 9732 9b6f 9dfa 788c 797f 7da0 83c9
9304 9e7f 8ad6 58df 5f04 7c60 807e 7262 78ca 8cc2 96f7 58d8 5c62 6a13 6dda 6f0f 7d2f 7e37 964b
52d2 808b 51dc 51cc 7a1c 7dbe 83f1 9675 8b80 62cf 6a02 8afe 4e39 5be7 6012 7387 7570 5317 78fb
4fbf 5fa9 4e0d 6ccc 6578 7d22 53c3 585e 7701 8449 8aaa 6bba 8fb0 6c88 62fe 82e5 63a0 7565 4eae
5169 51c9 6881 7ce7 826f 8ad2 91cf 52f5 5442 5973 5eec 65c5 6ffe 792a 95ad 9a6a 9e97 9ece 529b
66c6 6b77 8f62 5e74 6190 6200 649a 6f23 7149 7489 79ca 7df4 806f 8f26 84ee 9023 934a 5217 52a3
54bd 70c8 88c2 8aaa 5ec9 5ff5 637b 6bae 7c3e 7375 4ee4 56f9 5be7 5dba 601c 73b2 7469 7f9a 8046
9234 96f6 9748 9818 4f8b 79ae 91b4 96b8 60e1 4e86 50da 5bee 5c3f 6599 6a02 71ce 7642 84fc 907c
9f8d 6688 962e 5289 677b 67f3 6d41 6e9c 7409 7559 786b 7d10 985e 516d 622e 9678 502b 5d19 6dea
8f2a 5f8b 6144 6817 7387 9686 5229 540f 5c65 6613 674e 68a8 6ce5 7406 75e2 7f79 88cf 88e1 91cc
96e2 533f 6eba 541d 71d0 7498 85fa 96a3 9c57 9e9f 6797 6dcb 81e8 7acb 7b20 7c92 72c0 7099 8b58
4ec0 8336 523a 5207 5ea6 62d3 7cd6 5b85 6d1e 66b4 8f3b 884c 964d 898b 5ed3 5140 55c0 2 1 1 585a 1
1 1 6674 2 a 1 51de 732a 76ca 793c 795e 7965 798f 9756 7cbe 7fbd 1 1 1 8612 1 1 1 8af8 2 2 1 9038
90fd 3 44 1 98ef 98fc 9928 9db4 90de 96b7 4fae 50e7 514d 52c9 52e4 5351 559d 5606 5668 5840 58a8
5c64 5c6e 6094 6168 618e 61f2 654f 65e2 6691 6885 6d77 6e1a 6f22 716e 722b 7422 7891 793e 7949
7948 7950 7956 795d 798d 798e 7a40 7a81 7bc0 7df4 7e09 7e41 7f72 8005 81ed 8279 8279 8457 8910
8996 8b01 8b39 8cd3 8d08 8fb6 9038 96e3 97ff 983b 6075 242ee 8218 2 6a 1 4e26 51b5 5168 4f80 5145
5180 52c7 52fa 559d 5555 5599 55e2 585a 58b3 5944 5954 5a62 5b28 5ed2 5ed9 5f69 5fad 60d8 614e
6108 618e 6160 61f2 6234 63c4 641c 6452 6556 6674 6717 671b 6756 6b79 6bba 6d41 6edb 6ecb 6f22
701e 716e 77a7 7235 72af 732a 7471 7506 753b 761d 761f 76ca 76db 76f4 774a 7740 78cc 7ab1 7bc0
7c7b 7d5b 7df4 7f3e 8005 8352 83ef 8779 8941 8986 8996 8abf 8af8 8acb 8b01 8afe 8aed 8b39 8b8a
8d08 8f38 9072 9199 9276 967c 96e3 9756 97db 97ff 980b 983b 9b12 9f9c 2284a 22844 233d5 3b9d 4018
4039 25249 25cd0 27ed3 9f43 9f8e 43 1 2 5d9 5b4 1 1 2 5f2 5b7 a 2 2 5e9 5c1 5e9 5c2 0 2 3 5e9 5bc
5c1 5e9 5bc 5c2 0 9 2 5d0 5b7 5d0 5b8 5d0 5bc 5d1 5bc 5d2 5bc 5d3 5bc 5d4 5bc 5d5 5bc 5d6 5bc 1 5
2 5d8 5bc 5d9 5bc 5da 5bc 5db 5bc 5dc 5bc 1 1 2 5de 5bc 1 2 2 5e0 5bc 5e1 5bc 1 2 2 5e3 5bc 5e4
5bc 1 9 2 5e6 5bc 5e7 5bc 5e8 5bc 5e9 5bc 5ea 5bc 5d5 5b9 5d1 5bf 5db 5bf 5e4 5bf 154b 1 2 11099
110ba 1 1 2 1109b 110ba e 1 2 110a5 110ba 82 2 2 11131 11127 11132 11127 21b 2 2 11347 1133e 11347
11357 16e 2 2 114b9 114ba 114b9 114b0 1 1 2 114b9 114bd fb 2 2 115b8 115af 115b9 115af 37c 1 2
11935 11930 b825 2 2 1d157 1d165 1d158 1d165 0 5 3 1d158 1d165 1d16e 1d158 1d165 1d16f 1d158 1d165
1d170 1d158 1d165 1d171 1d158 1d165 1d172 56 2 2 1d1b9 1d165 1d1ba 1d165 0 4 3 1d1b9 1d165 1d16e
1d1ba 1d165 1d16e 1d1b9 1d165 1d16f 1d1ba 1d165 1d16f 1263f 21e 1 4e3d 4e38 4e41 20122 4f60 4fae
4fbb 5002 507a 5099 50e7 50cf 349e 2063a 514d 5154 5164 5177 2051c 34b9 5167 518d 2054b 5197 51a4
4ecc 51ac 51b5 291df 51f5 5203 34df 523b 5246 5272 5277 3515 52c7 52c9 52e4 52fa 5305 5306 5317
5349 5351 535a 5373 537d 537f 537f 537f 20a2c 7070 53ca 53df 20b63 53eb 53f1 5406 549e 5438 5448
5468 54a2 54f6 5510 5553 5563 5584 5584 5599 55ab 55b3 55c2 5716 5606 5717 5651 5674 5207 58ee
57ce 57f4 580d 578b 5832 5831 58ac 214e4 58f2 58f7 5906 591a 5922 5962 216a8 216ea 59ec 5a1b 5a27
59d8 5a66 36ee 36fc 5b08 5b3e 5b3e 219c8 5bc3 5bd8 5be7 5bf3 21b18 5bff 5c06 5f53 5c22 3781 5c60
5c6e 5cc0 5c8d 21de4 5d43 21de6 5d6e 5d6b 5d7c 5de1 5de2 382f 5dfd 5e28 5e3d 5e69 3862 22183 387c
5eb0 5eb3 5eb6 5eca 2a392 5efe 22331 22331 8201 5f22 5f22 38c7 232b8 261da 5f62 5f6b 38e3 5f9a
5fcd 5fd7 5ff9 6081 393a 391c 6094 226d4 60c7 6148 614c 614e 614c 617a 618e 61b2 61a4 61af 61de
61f2 61f6 6210 621b 625d 62b1 62d4 6350 22b0c 633d 62fc 6368 6383 63e4 22bf1 6422 63c5 63a9 3a2e
6469 647e 649d 6477 3a6c 654f 656c 2300a 65e3 66f8 6649 3b19 6691 3b08 3ae4 5192 5195 6700 669c
80ad 43d9 6717 671b 6721 675e 6753 233c3 3b49 67fa 6785 6852 6885 2346d 688e 681f 6914 3b9d 6942
69a3 69ea 6aa8 236a3 6adb 3c18 6b21 238a7 6b54 3c4e 6b72 6b9f 6bba 6bbb 23a8d 21d0b 23afa 6c4e
23cbc 6cbf 6ccd 6c67 6d16 6d3e 6d77 6d41 6d69 6d78 6d85 23d1e 6d34 6e2f 6e6e 3d33 6ecb 6ec7 23ed1
6df9 6f6e 23f5e 23f8e 6fc6 7039 701e 701b 3d96 704a 707d 7077 70ad 20525 7145 24263 719c 243ab
7228 7235 7250 24608 7280 7295 24735 24814 737a 738b 3eac 73a5 3eb8 3eb8 7447 745c 7471 7485 74ca
3f1b 7524 24c36 753e 24c92 7570 2219f 7610 24fa1 24fb8 25044 3ffc 4008 76f4 250f3 250f2 25119
25133 771e 771f 771f 774a 4039 778b 4046 4096 2541d 784e 788c 78cc 40e3 25626 7956 2569a 256c5
798f 79eb 412f 7a40 7a4a 7a4f 2597c 25aa7 25aa7 7aee 4202 25bab 7bc6 7bc9 4227 25c80 7cd2 42a0
7ce8 7ce3 7d00 25f86 7d63 4301 7dc7 7e02 7e45 4334 26228 26247 4359 262d9 7f7a 2633e 7f95 7ffa
8005 264da 26523 8060 265a8 8070 2335f 43d5 80b2 8103 440b 813e 5ab5 267a7 267b5 23393 2339c 8201
8204 8f9e 446b 8291 828b 829d 52b3 82b1 82b3 82bd 82e6 26b3c 82e5 831d 8363 83ad 8323 83bd 83e7
8457 8353 83ca 83cc 83dc 26c36 26d6b 26cd5 452b 84f1 84f3 8516 273ca 8564 26f2c 455d 4561 26fb1
270d2 456b 8650 865c 8667 8669 86a9 8688 870e 86e2 8779 8728 876b 8786 45d7 87e1 8801 45f9 8860
8863 27667 88d7 88de 4635 88fa 34bb 278ae 27966 46be 46c7 8aa0 8aed 8b8a 8c55 27ca8 8cab 8cc1 8d1b
8d77 27f2f 20804 8dcb 8dbc 8df0 208de 8ed4 8f38 285d2 285ed 9094 90f1 9111 2872e 911b 9238 92d7
92d8 927c 93f9 9415 28bfa 958b 4995 95b7 28d77 49e6 96c3 5db2 9723 29145 2921a 4a6e 4a76 97e0
2940a 4ab2 29496 980b 980b 9829 295b6 98e2 4b33 9929 99a7 99c2 99fe 4bce 29b30 9b12 9c40 9cfd 4cce
4ced 9d67 2a0ce 4cf8 2a105 2a20e 2a291 9ebb 4d56 9ef9 9efe 9f05 9f0f 9f16 9f3b 2a600"

/-- Ranges of characters that no characters compose into, though they have parts. -/
def excludedText : String :=
"344 0 613 7 7c 1 1 0 53 0 2 0 22 2 2 0 fd 1 3e5 0 9 0 4 0 4 0 4 0 c 0 9 0 1 1 1 0 8 0 11 0 9 0 4 0
4 0 4 0 c 0 fb7 0 1 0 1 0 1 0 1 0 1 0 1 0 3d 0 d 0 1 0 7 0 7 0 7 0 7 0 2 0 a 0 1 0 12f 0 9b0 0
d040 0 1 0 a c 1 4 1 0 1 1 1 1 1 8 d60f 6 56 5"

/-- Ranges of characters, each with the combining class of its members. -/
def classText : String :=
"300 14 e6 0 0 e8 0 3 dc 0 0 e8 0 0 d8 0 4 dc 0 1 ca 0 3 dc 0 1 ca 0 a dc 0 4 1 0 3 dc 0 7 e6 0 0
f0 0 0 e6 0 2 dc 0 2 e6 0 1 dc 1 2 e6 0 3 dc 0 0 e6 0 0 e8 0 1 dc 0 0 e6 0 0 e9 0 1 ea 0 0 e9 0 1
ea 0 0 e9 0 c e6 113 4 e6 109 0 dc 0 3 e6 0 0 dc 0 2 e6 0 0 de 0 0 dc 0 5 e6 0 5 dc 0 1 e6 0 0 dc
0 1 e6 0 0 de 0 0 e4 0 0 e6 0 0 a 0 0 b 0 0 c 0 0 d 0 0 e 0 0 f 0 0 10 0 0 11 0 0 12 0 1 13 0 0 14
0 0 15 0 0 16 1 0 17 1 0 18 0 0 19 1 0 e6 0 0 dc 1 0 12 48 7 e6 0 0 1e 0 0 1f 0 0 20 30 0 1b 0 0
1c 0 0 1d 0 0 1e 0 0 1f 0 0 20 0 0 21 0 0 22 0 1 e6 0 1 dc 0 4 e6 0 0 dc 0 1 e6 0 0 dc 10 0 23 65
6 e6 2 3 e6 0 0 dc 0 0 e6 2 1 e6 1 0 dc 0 1 e6 0 0 dc 23 0 24 1e 0 e6 0 0 dc 0 1 e6 0 0 dc 0 1 e6
0 2 dc 0 0 e6 0 1 dc 0 0 e6 0 0 dc 0 2 e6 0 0 dc 0 0 e6 0 0 dc 0 0 e6 0 0 dc 0 0 e6 0 0 dc 0 1 e6
a0 6 e6 0 0 dc 0 0 e6 9 0 dc 18 3 e6 1 8 e6 1 2 e6 1 4 e6 2b 2 dc 3c 0 e6 0 2 dc 0 3 e6 2a 4 e6 0
4 dc 0 d e6 1 0 dc 0 1 e6 0 0 dc 0 1 e6 0 0 dc 0 2 e6 0 2 dc 0 0 1b 0 0 1c 0 0 1d 0 2 e6 0 0 dc 0
1 e6 0 1 dc 0 4 e6 3c 0 7 10 0 9 3 0 e6 0 0 dc 0 1 e6 67 0 7 10 0 9 30 0 e6 3d 0 7 10 0 9 6e 0 7
10 0 9 6e 0 7 10 0 9 7f 0 9 6e 0 7 10 0 9 7 0 54 0 0 5b 65 0 7 10 0 9 6d 1 9 10 0 9 7c 0 9 6d 1 67
0 0 9 d 3 6b 6c 1 76 0 0 9 d 3 7a 2 0 7a 49 1 dc 1b 0 dc 1 0 dc 1 0 d8 37 0 81 0 0 82 1 0 84 5 3
82 2 0 82 1 1 e6 0 0 9 1 1 e6 3e 0 dc 70 0 7 1 1 9 52 0 dc 2cf 2 e6 3b4 1 9 1e 0 9 9d 0 9 a 0 e6
cb 0 e4 8f 0 de 0 0 e6 0 0 dc db 0 e6 0 0 dc 47 0 9 14 7 e6 2 0 dc 30 4 e6 0 5 dc 0 1 e6 0 0 dc 1
1 dc 0 1 e6 0 1 dc 0 4 e6 0 0 dc 0 3 e6 65 0 7 f 0 9 26 0 e6 0 0 dc 0 6 e6 36 1 9 3a 0 7 b 1 9 43
0 7 98 2 e6 1 0 1 0 4 dc 0 1 e6 0 3 dc 0 0 e6 1 6 1 4 0 dc 6 0 e6 3 1 e6 c6 1 e6 0 0 dc 0 6 e6 0 0
dc 0 1 e6 0 0 ea 0 0 d6 0 0 dc 0 0 ca 0 24 e6 0 0 e8 0 1 e4 0 0 dc 0 0 da 0 0 e6 0 0 e9 0 0 dc 0 0
e6 0 0 dc 2d0 1 e6 0 1 1 0 3 e6 0 2 1 0 1 e6 4 0 e6 3 1 1 0 0 e6 0 0 dc 0 0 e6 0 1 1 0 3 dc 0 0 e6
bfe 2 e6 8d 0 9 60 1f e6 22a 0 da 0 0 e4 0 0 e8 0 0 de 0 1 e0 69 1 8 75d4 0 e6 4 9 e6 20 1 e6 50 1
e6 114 0 9 25 0 9 97 0 9 1b 11 e6 39 2 dc 25 0 9 5f 0 7 c 0 9 ef 0 e6 1 1 e6 0 0 dc 2 1 e6 5 1 e6
1 0 e6 34 0 9 f6 0 9 4f30 0 1a 301 6 e6 0 6 dc 0 1 e6 3cd 0 dc e2 0 dc 95 4 e6 692 0 dc 1 0 e6 28
0 e6 0 0 1 0 0 dc 4 0 9 a5 0 e6 0 0 dc 23d 3 e6 183 1 e6 50 2 dc 46 1 dc 0 2 e6 0 0 dc 0 0 e6 0 3
dc 31 0 e6 0 0 dc 0 0 e6 0 0 dc c0 0 9 29 0 9 e 0 9 39 0 9 0 0 7 45 2 e6 30 1 9 3e 0 7 4c 0 9 9 0
7 6a 0 9 0 0 7 b2 0 7 0 0 9 50 1 7 10 0 9 18 6 e6 3 4 e6 cd 0 9 3 0 7 17 0 e6 63 0 9 0 0 7 fb 0 9
0 0 7 7e 0 9 76 0 9 0 0 7 73 0 9 10d 0 9 0 0 7 102 1 9 4 0 7 9c 0 9 53 0 9 12 0 9 51 0 9 1a5 0 9
102 0 7 1 1 9 51 0 9 1a9 1 9 4bad 4 1 3b 6 e6 4b9 1 6 4cac 0 1 14c6 1 d8 0 2 1 3 0 e2 0 4 d8 8 7
dc 2 4 e6 0 1 dc 1e 3 e6 94 2 e6 dbb 6 e6 1 10 e6 2 6 e6 1 1 e6 1 4 e6 64 0 e6 a0 6 e6 177 0 e6 3d
3 e6 1fc 1 e8 0 0 dc 0 0 e6 3e0 6 dc 6d 5 e6 0 0 7"

/-! ### The tables -/

/-- The characters of a run, from `character` on, with `length` parts each. -/
def runEntries (length : Nat) : Nat → Nat → List Nat → List (Nat × List Nat)
  | 0, _, _ => []
  | count + 1, character, parts =>
    (character, parts.take length) :: runEntries length count (character + 1) (parts.drop length)

/-- Reads the runs of the decomposition table; `fuel` bounds their number. -/
def decompositionEntries : Nat → Nat → List Nat → List (Nat × List Nat)
  | fuel + 1, least, distance :: count :: length :: rest =>
    runEntries length count (least + distance) rest ++
      decompositionEntries fuel (least + distance + count) (rest.drop (count * length))
  | _, _, _ => []

def entries : List (Nat × List Nat) :=
  let numbers := Hex.numbers decompositionText
  decompositionEntries numbers.length 0 numbers

def decompositions : Std.HashMap Nat (List Nat) := Std.HashMap.ofList entries

/-- Two characters and the one they compose into: the last part of a character behind what its
other parts compose into. -/
def composites : Std.HashMap (Nat × Nat) Nat :=
  let excluded := Hex.ranges 0 (Hex.numbers excludedText)
  let composed := entries.filter fun (character, parts) =>
    2 ≤ parts.length && !excluded.any fun (first, last) => first ≤ character && character ≤ last
  let wholes : Std.HashMap (List Nat) Nat :=
    Std.HashMap.ofList (composed.map fun (character, parts) => (parts, character))
  Std.HashMap.ofList (composed.map fun (character, parts) =>
    let first := match parts.dropLast with
      | [first] => first
      | front => wholes.getD front 0
    ((first, parts.getLastD 0), character))

def classRangesFrom (least : Nat) : List Nat → List (Nat × Nat × Nat)
  | distance :: further :: value :: rest =>
    let first := least + distance
    (first, first + further, value) :: classRangesFrom (first + further + 1) rest
  | _ => []

def classRanges : Array (Nat × Nat × Nat) := (classRangesFrom 0 (Hex.numbers classText)).toArray

/-- The combining class, zero for a character that starts a new run. -/
def combiningClass (code : Nat) : Nat :=
  if code < 0x300 then 0
  else
    match classRanges.find? fun (first, last, _) => first ≤ code && code ≤ last with
    | some (_, _, value) => value
    | none => 0

/-! ### Hangul syllables, which compose by arithmetic -/

def syllableBase : Nat := 0xac00
def leadBase : Nat := 0x1100
def vowelBase : Nat := 0x1161
def tailBase : Nat := 0x11a7
def leadCount : Nat := 19
def vowelCount : Nat := 21
def tailCount : Nat := 28

def decomposeSyllable? (code : Nat) : Option (List Nat) :=
  if syllableBase ≤ code ∧ code < syllableBase + leadCount * vowelCount * tailCount then
    let index := code - syllableBase
    let lead := leadBase + index / (vowelCount * tailCount)
    let vowel := vowelBase + index % (vowelCount * tailCount) / tailCount
    if index % tailCount = 0 then some [lead, vowel]
    else some [lead, vowel, tailBase + index % tailCount]
  else none

def composeSyllable? (first second : Nat) : Option Nat :=
  if leadBase ≤ first ∧ first < leadBase + leadCount ∧ vowelBase ≤ second ∧
      second < vowelBase + vowelCount then
    some (syllableBase + ((first - leadBase) * vowelCount + (second - vowelBase)) * tailCount)
  else if syllableBase ≤ first ∧ first < syllableBase + leadCount * vowelCount * tailCount ∧
      (first - syllableBase) % tailCount = 0 ∧ tailBase < second ∧
      second < tailBase + tailCount then
    some (first + (second - tailBase))
  else none

/-! ### The three steps -/

/-- The parts that an entry of the table gives; a character without parts stands for itself. -/
def partsOr (code : Nat) : Option (List Nat) → List Nat
  | some (first :: rest) => first :: rest
  | some [] => [code]
  | none => [code]

def decompose (code : Nat) : List Nat :=
  match decomposeSyllable? code with
  | some parts => parts
  | none => partsOr code (decompositions.get? code)

def compose? (first second : Nat) : Option Nat :=
  match composeSyllable? first second with
  | some whole => some whole
  | none => composites.get? (first, second)

/-- Puts a combining mark behind the marks of its run whose class is not greater. The run
stands in reverse, its last mark first. -/
def insertMark (mark : Nat) : List Nat → List Nat
  | [] => [mark]
  | last :: earlier =>
    if combiningClass mark < combiningClass last then last :: insertMark mark earlier
    else mark :: last :: earlier

/-- Orders every run of combining marks by class; `run` is the current run in reverse. -/
def orderMarks (run : List Nat) : List Nat → List Nat
  | [] => run.reverse
  | code :: rest =>
    if combiningClass code = 0 then run.reverse ++ code :: orderMarks [] rest
    else orderMarks (insertMark code run) rest

/-- Composes behind `starter`. The marks of `kept`, in reverse, did not compose with it; a
later mark is still free to if its class is greater than that of the last kept one. -/
def composeFrom (starter : Nat) (kept : List Nat) : List Nat → List Nat
  | [] => starter :: kept.reverse
  | code :: rest =>
    let free := match kept with
      | [] => true
      | last :: _ => combiningClass last < combiningClass code
    match if free then compose? starter code else none with
    | some whole => composeFrom whole kept rest
    | none =>
      if combiningClass code = 0 then starter :: kept.reverse ++ composeFrom code [] rest
      else composeFrom starter (code :: kept) rest

/-- Marks in front of the first starter stay as they are. -/
def composeAll : List Nat → List Nat
  | [] => []
  | code :: rest =>
    if combiningClass code = 0 then composeFrom code [] rest else code :: composeAll rest

/-! ### Stream-safe runs

A run of more than thirty combining marks is cut by a grapheme joiner. -/

def graphemeJoiner : Nat := 0x34f

def longestRun : Nat := 30

/-- How many marks stand in front of the first starter. -/
def leadingMarks (codes : List Nat) : Nat :=
  (codes.takeWhile fun code => combiningClass code ≠ 0).length

/-- How many marks stand behind the last starter. -/
def trailingMarks (codes : List Nat) : Nat := leadingMarks codes.reverse

/-- Decomposes, and puts a joiner where a run of marks would grow beyond the longest;
`count` is the length of the run so far. -/
def decomposeSafely (count : Nat) : List Nat → List Nat
  | [] => []
  | code :: rest =>
    let parts := decompose code
    let leading := leadingMarks parts
    if leading = 0 then parts ++ decomposeSafely (trailingMarks parts) rest
    else if longestRun < count + leading then
      graphemeJoiner :: parts ++ decomposeSafely leading rest
    else parts ++ decomposeSafely (count + leading) rest

/-- The composed form of a text. -/
def canonical (text : String) : String :=
  if text.toList.all fun character => character.toNat < 0x80 then text
  else
    let codes := decomposeSafely 0 (text.toList.map Char.toNat)
    String.ofList ((composeAll (orderMarks [] codes)).map Char.ofNat)

end TreeCheck.Text.Composition
